import DebugSweep.Proofs.Discretion
import DebugSweep.Proofs.Pieces
import DebugSweep.Settings.Merge

/-! Settings in layers. Main statement: a configuration file and overrides are merged into settings exactly when
every value that they give fits its field, each field then has the value of the uppermost layer that gives one, and
everything else is refused as invalid, but for seconds that no double holds. -/
namespace DebugSweep

section
variable {ε α β : Type} {first : Except ε α} {next : α → Except ε β}

def Fails (known : ε → Prop) (result : Except ε α) : Prop := ∀ fault, result = .error fault → known fault

theorem Fails.ok {known : ε → Prop} (a : α) : Fails known (.ok a) := fun _ failed => nomatch failed

theorem Fails.error {known : ε → Prop} {fault : ε} (holds : known fault) : Fails known (.error fault : Except ε α) := by
  rintro other ⟨⟩
  exact holds

theorem Fails.bind {known : ε → Prop} (here : Fails known first) (later : ∀ a, first = .ok a → Fails known (next a)) :
    Fails known (first >>= next) := by
  intro fault failed
  cases first with
  | ok a => exact later a rfl fault failed
  | error other =>
    cases failed
    exact here fault rfl

theorem Fails.mono {known wider : ε → Prop} (here : Fails known first) (among : ∀ fault, known fault → wider fault) :
    Fails wider first := fun fault failed => among fault (here fault failed)

theorem Fails.map {known : ε → Prop} {f : α → β} (here : Fails known first) : Fails known (first.map f) := by
  intro fault failed
  cases first with
  | ok a => contradiction
  | error other =>
    cases failed
    exact here fault rfl

theorem Fails.mapM {known : ε → Prop} {f : α → Except ε β} (each : ∀ a, Fails known (f a)) (items : List α) :
    Fails known (items.mapM f) := by
  induction items with
  | nil => exact .ok []
  | cons a items ih =>
    rw [List.mapM_cons]
    exact (each a).bind fun b _ => ih.bind fun rest _ => .ok (b :: rest)

end

namespace Settings
variable {here : AbsPath} {base s : Settings} {payload fields : Fields} {o : Overrides}

/-- Limits and the width of a tab lie between one and their caps, choices are on their lists, and there is a root. -/
structure Bounded (s : Settings) : Prop where
  maxFileBytes : 1 ≤ s.limits.maxFileBytes ∧ s.limits.maxFileBytes ≤ maxFileBytesCap
  batchSize : 1 ≤ s.limits.batchSize ∧ s.limits.batchSize ≤ batchSizeCap
  maxResponseBytes : 1 ≤ s.limits.maxResponseBytes ∧ s.limits.maxResponseBytes ≤ maxResponseBytesCap
  tabSize : 1 ≤ s.editor.tabSize ∧ s.editor.tabSize ≤ tabSizeCap
  language : s.editor.language ∈ Edit.languages
  mode : s.guard.mode ∈ guardModes
  roots : s.scan.roots ≠ []

inductive GivesInt (cap : Nat) : Value → Nat → Prop where
  | int (n : Nat) (positive : 1 ≤ n) (capped : n ≤ cap) : GivesInt cap (.int n) n

inductive GivesTruth : Value → Bool → Prop where
  | bool (b : Bool) : GivesTruth (.bool b) b

inductive GivesChoice (choices : List String) : Value → String → Prop where
  | text (s : String) (listed : s ∈ choices) : GivesChoice choices (.text s) s

/-- A number above zero; a whole one counts as the double nearest to it. -/
inductive GivesSeconds : Value → UInt64 → Prop where
  | real (bits : UInt64) (positive : Binary64.isPositive bits = true) : GivesSeconds (.real bits) bits
  | int (n : Int) (bits : UInt64) (positive : 0 < n) (nearest : Binary64.ofInt? n = some bits) :
      GivesSeconds (.int n) bits

inductive Revised {α : Type} (gives : Value → α → Prop) (base : α) : Value → α → Prop where
  | kept : Revised gives base .null base
  | given {v : Value} {a : α} (fits : gives v a) : Revised gives base v a

/-- Two layers over a field. The lower one has to fit also where the upper one hides it. -/
def Twice {α : Type} (gives : Value → α → Prop) (base : α) (file override : Value) (a : α) : Prop :=
  ∃ between, Revised gives base file between ∧ Revised gives between override a

/-- A layer over a list of texts, which may be left out but not be null. -/
inductive Relisted {α : Type} (means : List String → α → Prop) (base : α) : Option Value → α → Prop where
  | kept : Relisted means base none base
  | given (texts : List String) {a : α} (meant : means texts a) : Relisted means base (some (Value.ofTexts texts)) a

def Rooted (base : Settings) (texts : List String) (places : List AbsPath) : Prop :=
  texts ≠ [] ∧ List.Forall₂ (fun text place => Path.resolve base.workspaceRoot text = .ok place) texts places

def Housed (here : AbsPath) (base : Settings) (o : Overrides) (dir : AbsPath) : Prop :=
  match o.dataDir with
  | none => dir = base.dataDir
  | some text => Path.resolve here text = .ok dir

def IsTable (payload : Fields) (key : String) : Prop :=
  ∀ v, Value.fieldIn? key payload = some v → ∃ fields, v = .record fields

def tableOf (payload : Fields) (key : String) : Fields :=
  match Value.fieldIn? key payload with
  | some (.record fields) => fields
  | _ => []

structure Layered (here : AbsPath) (base : Settings) (payload : Fields) (o : Overrides) (s : Settings) : Prop where
  tables : ∀ key ∈ ["scan", "limits", "editor", "guard", "watch"], IsTable payload key
  workspaceRoot : s.workspaceRoot = base.workspaceRoot
  dataDir : Housed here base o s.dataDir
  roots : Relisted (Rooted base) base.scan.roots (Value.fieldIn? "roots" (tableOf payload "scan")) s.scan.roots
  includeExtensions : Relisted (fun texts extensions => extensions = texts.map normalizeExtension)
    base.scan.includeExtensions (Value.fieldIn? "include_extensions" (tableOf payload "scan")) s.scan.includeExtensions
  excludeGlobs : Relisted (fun texts globs => globs = texts)
    base.scan.excludeGlobs (Value.fieldIn? "exclude_globs" (tableOf payload "scan")) s.scan.excludeGlobs
  skipDirNames : Relisted (fun texts names => names = texts)
    base.scan.skipDirNames (Value.fieldIn? "skip_dir_names" (tableOf payload "scan")) s.scan.skipDirNames
  maxFileBytes : Twice (GivesInt maxFileBytesCap) base.limits.maxFileBytes
    (valueOf (tableOf payload "limits") "max_file_bytes") o.maxFileBytes s.limits.maxFileBytes
  batchSize : Twice (GivesInt batchSizeCap) base.limits.batchSize
    (valueOf (tableOf payload "limits") "batch_size") o.batchSize s.limits.batchSize
  maxResponseBytes : Revised (GivesInt maxResponseBytesCap) base.limits.maxResponseBytes
    (valueOf (tableOf payload "limits") "max_total_bytes_per_response") s.limits.maxResponseBytes
  tabSize : Revised (GivesInt tabSizeCap) base.editor.tabSize
    (valueOf (tableOf payload "editor") "tab_size") s.editor.tabSize
  insertSpaces : Revised GivesTruth base.editor.insertSpaces
    (valueOf (tableOf payload "editor") "insert_spaces") s.editor.insertSpaces
  language : Twice (GivesChoice Edit.languages) base.editor.language
    (valueOf (tableOf payload "editor") "language") o.language s.editor.language
  enabled : Revised GivesTruth base.guard.enabled
    (valueOf (tableOf payload "guard") "enabled") s.guard.enabled
  mode : Twice (GivesChoice guardModes) base.guard.mode
    (valueOf (tableOf payload "guard") "mode") o.guardMode s.guard.mode
  debounce : Revised GivesSeconds base.watch.debounce
    (valueOf (tableOf payload "watch") "debounce_seconds") s.watch.debounce
  pollInterval : Revised GivesSeconds base.watch.pollInterval
    (valueOf (tableOf payload "watch") "poll_interval_seconds") s.watch.pollInterval

section
variable {value : Value} {name key : String}

theorem positiveIntIff {old cap n : Nat} :
    positiveInt value name old cap = .ok n ↔ Revised (GivesInt cap) old value n := by
  constructor
  · intro taken
    unfold positiveInt at taken
    split at taken
    · cases taken
      exact .kept
    · rename_i size
      split at taken
      · contradiction
      split at taken
      · contradiction
      cases taken
      obtain ⟨m, rfl⟩ := Int.eq_ofNat_of_zero_le (by omega : 0 ≤ size)
      exact .given (.int m (by omega) (by omega))
    · contradiction
  · rintro (_ | ⟨_, positive, capped⟩)
    · rfl
    · have first : ¬ (n : Int) < 1 := by omega
      have second : ¬ (cap : Int) < n := by omega
      simp [positiveInt, first, second]

theorem truthIff {old b : Bool} : truth value name old = .ok b ↔ Revised GivesTruth old value b := by
  constructor
  · intro taken
    unfold truth at taken
    split at taken
    · cases taken
      exact .kept
    · cases taken
      exact .given (.bool b)
    · contradiction
  · rintro (_ | ⟨⟨⟩⟩) <;> rfl

theorem choiceIff {old chosen : String} {choices : List String} :
    choice value name old choices = .ok chosen ↔ Revised (GivesChoice choices) old value chosen := by
  constructor
  · intro taken
    unfold choice at taken
    split at taken
    · cases taken
      exact .kept
    · split at taken
      · rename_i listed
        cases taken
        exact .given (.text chosen (List.contains_iff_mem.mp listed))
      · contradiction
    · contradiction
  · rintro (_ | ⟨_, listed⟩)
    · rfl
    · simp [choice, listed]

theorem positiveRealIff {old bits : UInt64} :
    positiveReal value name old = .ok bits ↔ Revised GivesSeconds old value bits := by
  constructor
  · intro taken
    unfold positiveReal at taken
    split at taken
    · cases taken
      exact .kept
    · split at taken
      · contradiction
      split at taken
      · rename_i nearest
        cases taken
        exact .given (.int _ _ (by omega) nearest)
      · contradiction
    · split at taken
      · rename_i positive
        cases taken
        exact .given (.real _ positive)
      · contradiction
    · contradiction
  · rintro (_ | ⟨_, positive⟩ | ⟨n, _, positive, nearest⟩)
    · rfl
    · simp [positiveReal, positive]
    · simp [positiveReal, Int.not_le.mpr positive, nearest]

theorem textsOfIff {texts : List String} : textsOf value name = .ok texts ↔ value = Value.ofTexts texts := by
  constructor
  · intro taken
    unfold textsOf at taken
    split at taken
    · split at taken
      · rename_i read
        cases taken
        rw [Journal.textsOf read]
        rfl
      · contradiction
    · contradiction
  · rintro rfl
    have read : (Value.ofTexts texts).texts? = some texts := Journal.textsRead texts
    simp only [textsOf, read]
    rfl

def relist {α : Type} (old : α) (read : Value → Except Fault α) (given : Option Value) : Except Fault α :=
  given.elim (.ok old) read

theorem relistIff {α : Type} {means : List String → α → Prop} {old a : α} {read : Value → Except Fault α}
    (reads : ∀ v, read v = .ok a ↔ ∃ texts, v = Value.ofTexts texts ∧ means texts a) {given : Option Value} :
    relist old read given = .ok a ↔ Relisted means old given a := by
  constructor
  · intro taken
    cases given with
    | none =>
      cases taken
      exact .kept
    | some v =>
      obtain ⟨texts, rfl, meant⟩ := (reads v).mp taken
      exact .given texts meant
  · rintro (_ | ⟨texts, meant⟩)
    · rfl
    · exact (reads _).mpr ⟨texts, rfl, meant⟩

theorem scanTextsRelist (old : List String) : scanTexts fields name old =
    relist old (fun v => textsOf v ("scan." ++ name)) (Value.fieldIn? name fields) := by
  unfold scanTexts relist
  cases Value.fieldIn? name fields <;> rfl

theorem scanTextsIff {old texts : List String} : scanTexts fields name old = .ok texts ↔
    Relisted (fun given made => made = given) old (Value.fieldIn? name fields) texts := by
  rw [scanTextsRelist]
  exact relistIff fun v => by simp [textsOfIff]

def extensionsOf (value : Value) : Except Fault (List String) :=
  (textsOf value "scan.include_extensions").map (·.map normalizeExtension)

theorem extensionsOfIff {extensions : List String} : extensionsOf value = .ok extensions ↔
    ∃ texts, value = Value.ofTexts texts ∧ extensions = texts.map normalizeExtension := by
  unfold extensionsOf
  cases read : textsOf value "scan.include_extensions" with
  | error fault =>
    have strange : ¬ ∃ texts, value = Value.ofTexts texts := by
      rintro ⟨texts, same⟩
      rw [textsOfIff.mpr same] at read
      contradiction
    simp_all [Except.map]
  | ok texts =>
    obtain rfl := textsOfIff.mp read
    have once : ∀ others, Value.ofTexts texts = Value.ofTexts others ↔ others = texts := by
      intro others
      rw [← textsOfIff, read]
      simp [eq_comm]
    simp [Except.map, once, eq_comm]

def rootsOf (base : Settings) (value : Value) : Except Fault (List AbsPath) := do
  let texts ← textsOf value "scan.roots"
  if texts.isEmpty then refuse .noRoots else texts.mapM (Path.resolve base.workspaceRoot)

theorem rootsOfIff {roots : List AbsPath} : rootsOf base value = .ok roots ↔
    ∃ texts, value = Value.ofTexts texts ∧ Rooted base texts roots := by
  rw [rootsOf, bindOkIff]
  refine exists_congr fun texts => ?_
  rw [textsOfIff, Rooted, ← mapEachIff]
  cases texts <;> simp [refuse]

theorem mergeScanSteps (base : Settings) (fields : Fields) : mergeScan base fields =
    (relist base.scan.roots (rootsOf base) (Value.fieldIn? "roots" fields) >>= fun roots =>
    relist base.scan.includeExtensions extensionsOf (Value.fieldIn? "include_extensions" fields) >>= fun extensions =>
    scanTexts fields "exclude_globs" base.scan.excludeGlobs >>= fun globs =>
    scanTexts fields "skip_dir_names" base.scan.skipDirNames >>= fun names =>
    .ok ⟨roots, extensions, globs, names⟩) := by
  unfold mergeScan mergeRoots relist
  cases Value.fieldIn? "roots" fields <;> cases Value.fieldIn? "include_extensions" fields <;> rfl

theorem sectionIff : sectionOf payload key = .ok fields ↔ IsTable payload key ∧ fields = tableOf payload key := by
  unfold sectionOf IsTable tableOf
  cases there : Value.fieldIn? key payload with
  | none => simp [eq_comm]
  | some v => cases v <;> simp [refuse, eq_comm]

end

theorem mergeScanIff {scan : ScanSettings} : mergeScan base fields = .ok scan ↔
    Relisted (Rooted base) base.scan.roots (Value.fieldIn? "roots" fields) scan.roots ∧
    Relisted (fun texts extensions => extensions = texts.map normalizeExtension)
      base.scan.includeExtensions (Value.fieldIn? "include_extensions" fields) scan.includeExtensions ∧
    Relisted (fun texts globs => globs = texts) base.scan.excludeGlobs (Value.fieldIn? "exclude_globs" fields)
      scan.excludeGlobs ∧
    Relisted (fun texts names => names = texts) base.scan.skipDirNames (Value.fieldIn? "skip_dir_names" fields)
      scan.skipDirNames := by
  have rooted (places : List AbsPath) : relist base.scan.roots (rootsOf base) (Value.fieldIn? "roots" fields) =
      .ok places ↔ Relisted (Rooted base) _ _ places := relistIff fun v => rootsOfIff
  have extended (texts : List String) : relist base.scan.includeExtensions extensionsOf
      (Value.fieldIn? "include_extensions" fields) = .ok texts ↔
      Relisted (fun texts extensions => extensions = texts.map normalizeExtension) _ _ texts :=
    relistIff fun v => extensionsOfIff
  simp only [mergeScanSteps, bindOkIff, rooted, extended, scanTextsIff]
  constructor
  · rintro ⟨_, roots, _, extensions, _, globs, _, names, ⟨⟩⟩
    exact ⟨roots, extensions, globs, names⟩
  · rintro ⟨roots, extensions, globs, names⟩
    exact ⟨_, roots, _, extensions, _, globs, _, names, rfl⟩

theorem mergeLimitsIff {old limits : Limits} : mergeLimits old fields = .ok limits ↔
    Revised (GivesInt maxFileBytesCap) old.maxFileBytes (valueOf fields "max_file_bytes") limits.maxFileBytes ∧
    Revised (GivesInt batchSizeCap) old.batchSize (valueOf fields "batch_size") limits.batchSize ∧
    Revised (GivesInt maxResponseBytesCap) old.maxResponseBytes (valueOf fields "max_total_bytes_per_response")
      limits.maxResponseBytes := by
  simp only [mergeLimits, bindOkIff, positiveIntIff]
  constructor
  · rintro ⟨_, bytes, _, size, _, response, ⟨⟩⟩
    exact ⟨bytes, size, response⟩
  · rintro ⟨bytes, size, response⟩
    exact ⟨_, bytes, _, size, _, response, rfl⟩

theorem mergeEditorIff {old editor : EditorSettings} : mergeEditor old fields = .ok editor ↔
    Revised (GivesInt tabSizeCap) old.tabSize (valueOf fields "tab_size") editor.tabSize ∧
    Revised GivesTruth old.insertSpaces (valueOf fields "insert_spaces") editor.insertSpaces ∧
    Revised (GivesChoice Edit.languages) old.language (valueOf fields "language") editor.language := by
  simp only [mergeEditor, bindOkIff, positiveIntIff, truthIff, choiceIff]
  constructor
  · rintro ⟨_, tab, _, spaces, _, language, ⟨⟩⟩
    exact ⟨tab, spaces, language⟩
  · rintro ⟨tab, spaces, language⟩
    exact ⟨_, tab, _, spaces, _, language, rfl⟩

theorem mergeGuardIff {old guard : GuardSettings} : mergeGuard old fields = .ok guard ↔
    Revised GivesTruth old.enabled (valueOf fields "enabled") guard.enabled ∧
    Revised (GivesChoice guardModes) old.mode (valueOf fields "mode") guard.mode := by
  simp only [mergeGuard, bindOkIff, truthIff, choiceIff]
  constructor
  · rintro ⟨_, enabled, _, mode, ⟨⟩⟩
    exact ⟨enabled, mode⟩
  · rintro ⟨enabled, mode⟩
    exact ⟨_, enabled, _, mode, rfl⟩

theorem mergeWatchIff {old watch : WatchSettings} : mergeWatch old fields = .ok watch ↔
    Revised GivesSeconds old.debounce (valueOf fields "debounce_seconds") watch.debounce ∧
    Revised GivesSeconds old.pollInterval (valueOf fields "poll_interval_seconds") watch.pollInterval := by
  simp only [mergeWatch, bindOkIff, positiveRealIff]
  constructor
  · rintro ⟨_, debounce, _, interval, ⟨⟩⟩
    exact ⟨debounce, interval⟩
  · rintro ⟨debounce, interval⟩
    exact ⟨_, debounce, _, interval, rfl⟩

theorem mergeFileIff : mergeFile base payload = .ok s ↔
    (∀ key ∈ ["scan", "limits", "editor", "guard", "watch"], IsTable payload key) ∧
    mergeScan base (tableOf payload "scan") = .ok s.scan ∧
    mergeLimits base.limits (tableOf payload "limits") = .ok s.limits ∧
    mergeEditor base.editor (tableOf payload "editor") = .ok s.editor ∧
    mergeGuard base.guard (tableOf payload "guard") = .ok s.guard ∧
    mergeWatch base.watch (tableOf payload "watch") = .ok s.watch ∧
    s.workspaceRoot = base.workspaceRoot ∧ s.dataDir = base.dataDir := by
  simp only [mergeFile, bindOkIff, sectionIff, List.forall_mem_cons]
  constructor
  · rintro ⟨_, ⟨table₁, rfl⟩, _, ⟨table₂, rfl⟩, _, ⟨table₃, rfl⟩, _, ⟨table₄, rfl⟩, _, ⟨table₅, rfl⟩,
      _, scan, _, limits, _, editor, _, guard, _, watch, ⟨⟩⟩
    exact ⟨⟨table₁, table₂, table₃, table₄, table₅, by simp⟩, scan, limits, editor, guard, watch, rfl, rfl⟩
  · rintro ⟨⟨table₁, table₂, table₃, table₄, table₅, -⟩, scan, limits, editor, guard, watch, root, dir⟩
    refine ⟨_, ⟨table₁, rfl⟩, _, ⟨table₂, rfl⟩, _, ⟨table₃, rfl⟩, _, ⟨table₄, rfl⟩, _, ⟨table₅, rfl⟩,
      _, scan, _, limits, _, editor, _, guard, _, watch, ?_⟩
    rw [← root, ← dir]
    rfl

theorem overrideSteps (here : AbsPath) (base : Settings) (o : Overrides) : override here base o =
    (positiveInt o.maxFileBytes "overrides.max_file_bytes" base.limits.maxFileBytes maxFileBytesCap >>= fun bytes =>
    positiveInt o.batchSize "overrides.batch_size" base.limits.batchSize batchSizeCap >>= fun size =>
    choice o.guardMode "overrides.guard_mode" base.guard.mode guardModes >>= fun mode =>
    choice o.language "overrides.language" base.editor.language Edit.languages >>= fun language =>
    o.dataDir.elim (.ok base.dataDir) (Path.resolve here) >>= fun dataDir =>
    .ok { base with
      dataDir
      limits := { base.limits with maxFileBytes := bytes, batchSize := size }
      guard := { base.guard with mode }
      editor := { base.editor with language } }) := by
  unfold override
  cases o.dataDir <;> rfl

theorem housedIff {dir : AbsPath} :
    o.dataDir.elim (.ok base.dataDir) (Path.resolve here) = .ok dir ↔ Housed here base o dir := by
  unfold Housed
  cases o.dataDir <;> simp [eq_comm]

theorem overrideIff : override here base o = .ok s ↔
    ∃ bytes, Revised (GivesInt maxFileBytesCap) base.limits.maxFileBytes o.maxFileBytes bytes ∧
    ∃ size, Revised (GivesInt batchSizeCap) base.limits.batchSize o.batchSize size ∧
    ∃ mode, Revised (GivesChoice guardModes) base.guard.mode o.guardMode mode ∧
    ∃ language, Revised (GivesChoice Edit.languages) base.editor.language o.language language ∧
    ∃ dataDir, Housed here base o dataDir ∧
    { base with
      dataDir
      limits := { base.limits with maxFileBytes := bytes, batchSize := size }
      guard := { base.guard with mode }
      editor := { base.editor with language } } = s := by
  simp only [overrideSteps, bindOkIff, positiveIntIff, choiceIff, housedIff, Except.ok.injEq]

theorem mergeIff : merge here base payload o = .ok s ↔ Layered here base payload o s := by
  rw [merge, bindOkIff]
  constructor
  · rintro ⟨between, filed, overridden⟩
    obtain ⟨tables, scan, limits, editor, guard, watch, root, dir⟩ := mergeFileIff.mp filed
    obtain ⟨bytes, bytes', size, size', mode, mode', language, language', dataDir, housed, rfl⟩ :=
      overrideIff.mp overridden
    obtain ⟨roots, extensions, globs, names⟩ := mergeScanIff.mp scan
    obtain ⟨fileBytes, fileSize, response⟩ := mergeLimitsIff.mp limits
    obtain ⟨tab, spaces, fileLanguage⟩ := mergeEditorIff.mp editor
    obtain ⟨enabled, fileMode⟩ := mergeGuardIff.mp guard
    obtain ⟨debounce, interval⟩ := mergeWatchIff.mp watch
    have housed : Housed here base o dataDir := by simpa only [Housed, dir] using housed
    exact ⟨tables, root, housed, roots, extensions, globs, names, ⟨_, fileBytes, bytes'⟩, ⟨_, fileSize, size'⟩,
      response, tab, spaces, ⟨_, fileLanguage, language'⟩, enabled, ⟨_, fileMode, mode'⟩, debounce, interval⟩
  · intro layered
    obtain ⟨bytes, fileBytes, bytes'⟩ := layered.maxFileBytes
    obtain ⟨size, fileSize, size'⟩ := layered.batchSize
    obtain ⟨language, fileLanguage, language'⟩ := layered.language
    obtain ⟨mode, fileMode, mode'⟩ := layered.mode
    refine ⟨{ base with
      scan := s.scan
      limits := ⟨bytes, size, s.limits.maxResponseBytes⟩
      editor := ⟨s.editor.tabSize, s.editor.insertSpaces, language⟩
      guard := ⟨s.guard.enabled, mode⟩
      watch := s.watch }, mergeFileIff.mpr ⟨layered.tables, ?_, ?_, ?_, ?_, ?_, rfl, rfl⟩, overrideIff.mpr ?_⟩
    · exact mergeScanIff.mpr ⟨layered.roots, layered.includeExtensions, layered.excludeGlobs, layered.skipDirNames⟩
    · exact mergeLimitsIff.mpr ⟨fileBytes, fileSize, layered.maxResponseBytes⟩
    · exact mergeEditorIff.mpr ⟨layered.tabSize, layered.insertSpaces, fileLanguage⟩
    · exact mergeGuardIff.mpr ⟨layered.enabled, fileMode⟩
    · exact mergeWatchIff.mpr ⟨layered.debounce, layered.pollInterval⟩
    · refine ⟨_, bytes', _, size', _, mode', _, language', _, layered.dataDir, ?_⟩
      rw [← layered.workspaceRoot]

section
variable {α : Type} {gives : Value → α → Prop} {keeps : α → Prop} {old a : α} {file override : Value}

theorem Revised.keep (revised : Revised gives old file a) (before : keeps old) (each : ∀ v a, gives v a → keeps a) :
    keeps a := by
  cases revised with
  | kept => exact before
  | given fits => exact each _ _ fits

theorem Twice.keep (twice : Twice gives old file override a) (before : keeps old) (each : ∀ v a, gives v a → keeps a) :
    keeps a := by
  obtain ⟨between, lower, upper⟩ := twice
  exact upper.keep (lower.keep before each) each

theorem Relisted.keep {means : List String → α → Prop} {given : Option Value} (relisted : Relisted means old given a)
    (before : keeps old) (each : ∀ texts, means texts a → keeps a) : keeps a := by
  cases relisted with
  | kept => exact before
  | given texts meant => exact each texts meant

theorem givenInt {cap n : Nat} {v : Value} (given : GivesInt cap v n) : 1 ≤ n ∧ n ≤ cap := by
  obtain ⟨_, positive, capped⟩ := given
  exact ⟨positive, capped⟩

theorem givenChoice {choices : List String} {v : Value} {chosen : String} (given : GivesChoice choices v chosen) :
    chosen ∈ choices := by
  obtain ⟨_, listed⟩ := given
  exact listed

end

theorem Layered.bounded (layered : Layered here base payload o s) (bounded : base.Bounded) : s.Bounded where
  maxFileBytes := layered.maxFileBytes.keep bounded.maxFileBytes fun _ _ => givenInt
  batchSize := layered.batchSize.keep bounded.batchSize fun _ _ => givenInt
  maxResponseBytes := layered.maxResponseBytes.keep bounded.maxResponseBytes fun _ _ => givenInt
  tabSize := layered.tabSize.keep bounded.tabSize fun _ _ => givenInt
  language := layered.language.keep bounded.language fun _ _ => givenChoice
  mode := layered.mode.keep bounded.mode fun _ _ => givenChoice
  roots := @Relisted.keep _ (· ≠ []) _ _ _ _ layered.roots bounded.roots fun texts rooted none => by
    rw [none] at rooted
    exact rooted.1 (List.forall₂_nil_right_iff.mp rooted.2)

/-- Seconds in whole numbers that no double holds. -/
def Overflows (payload : Fields) : Prop :=
  ∃ name ∈ ["debounce_seconds", "poll_interval_seconds"], ∃ n : Int, 0 < n ∧
    valueOf (tableOf payload "watch") name = .int n ∧ Binary64.ofInt? n = none

section
variable {value : Value} {name key : String}

def Unfit (fault : Fault) : Prop := fault.isInvalid = true

theorem positiveIntFails (old cap : Nat) : Fails Unfit (positiveInt value name old cap) := by
  unfold positiveInt
  split
  · exact .ok _
  · split
    · exact .error rfl
    · split
      · exact .error rfl
      · exact .ok _
  · exact .error rfl

theorem truthFails (old : Bool) : Fails Unfit (truth value name old) := by
  unfold truth
  split
  · exact .ok _
  · exact .ok _
  · exact .error rfl

theorem choiceFails (old : String) (choices : List String) : Fails Unfit (choice value name old choices) := by
  unfold choice
  split
  · exact .ok _
  · split
    · exact .ok _
    · exact .error rfl
  · exact .error rfl

theorem positiveRealFails (old : UInt64) : Fails (fun fault => Unfit fault ∨ fault = .floatRange ∧
    ∃ n : Int, 0 < n ∧ value = .int n ∧ Binary64.ofInt? n = none) (positiveReal value name old) := by
  unfold positiveReal
  split
  · exact .ok _
  · rename_i n
    split
    · exact .error (.inl rfl)
    · rename_i positive
      split
      · exact .ok _
      · rename_i none
        exact .error (.inr ⟨rfl, n, by omega, rfl, none⟩)
  · split
    · exact .ok _
    · exact .error (.inl rfl)
  · exact .error (.inl rfl)

theorem textsOfFails (value : Value) (name : String) : Fails Unfit (textsOf value name) := by
  unfold textsOf
  split
  · split
    · exact .ok _
    · exact .error rfl
  · exact .error rfl

theorem relistFails {α : Type} {old : α} {read : Value → Except Fault α} (each : ∀ v, Fails Unfit (read v))
    (given : Option Value) : Fails Unfit (relist old read given) := by
  cases given with
  | none => exact .ok old
  | some v => exact each v

theorem resolveFails (here : AbsPath) (text : String) : Fails Unfit (Path.resolve here text) := by
  unfold Path.resolve
  dsimp only
  split
  · exact .error rfl
  · exact .ok _

theorem rootsOfFails (base : Settings) (value : Value) : Fails Unfit (rootsOf base value) := by
  refine (textsOfFails value _).bind fun texts _ => ?_
  split
  · exact .error rfl
  · exact .mapM (resolveFails _) texts

theorem sectionFails (payload : Fields) (key : String) : Fails Unfit (sectionOf payload key) := by
  unfold sectionOf
  split
  · exact .ok _
  · exact .ok _
  · exact .error rfl

end

theorem mergeScanFails (base : Settings) (fields : Fields) : Fails Unfit (mergeScan base fields) := by
  rw [mergeScanSteps, scanTextsRelist, scanTextsRelist]
  refine (relistFails (rootsOfFails base) _).bind fun _ _ => ?_
  refine (relistFails (fun v => (textsOfFails v _).map) _).bind fun _ _ => ?_
  refine (relistFails (fun v => textsOfFails v _) _).bind fun _ _ => ?_
  exact (relistFails (fun v => textsOfFails v _) _).bind fun _ _ => .ok _

theorem mergeLimitsFails (old : Limits) (fields : Fields) : Fails Unfit (mergeLimits old fields) :=
  (positiveIntFails _ _).bind fun _ _ => (positiveIntFails _ _).bind fun _ _ =>
    (positiveIntFails _ _).bind fun _ _ => .ok _

theorem mergeEditorFails (old : EditorSettings) (fields : Fields) : Fails Unfit (mergeEditor old fields) :=
  (positiveIntFails _ _).bind fun _ _ => (truthFails _).bind fun _ _ => (choiceFails _ _).bind fun _ _ => .ok _

theorem mergeGuardFails (old : GuardSettings) (fields : Fields) : Fails Unfit (mergeGuard old fields) :=
  (truthFails _).bind fun _ _ => (choiceFails _ _).bind fun _ _ => .ok _

theorem mergeWatchFails (old : WatchSettings) (payload : Fields) :
    Fails (fun fault => Unfit fault ∨ fault = .floatRange ∧ Overflows payload)
      (mergeWatch old (tableOf payload "watch")) := by
  have known (name : String) (listed : name ∈ ["debounce_seconds", "poll_interval_seconds"]) (field : String)
      (bits : UInt64) : Fails (fun fault => Unfit fault ∨ fault = .floatRange ∧ Overflows payload)
      (positiveReal (valueOf (tableOf payload "watch") name) field bits) := by
    refine (positiveRealFails bits).mono fun fault => Or.imp_right ?_
    rintro ⟨range, n, positive, whole, none⟩
    exact ⟨range, name, listed, n, positive, whole, none⟩
  exact (known _ (by simp) _ _).bind fun _ _ => (known _ (by simp) _ _).bind fun _ _ => .ok _

theorem mergeFileFails (base : Settings) (payload : Fields) :
    Fails (fun fault => Unfit fault ∨ fault = .floatRange ∧ Overflows payload) (mergeFile base payload) := by
  have unfit {α : Type} {result : Except Fault α} (fails : Fails Unfit result) :
      Fails (fun fault => Unfit fault ∨ fault = .floatRange ∧ Overflows payload) result := fails.mono fun _ => .inl
  refine (unfit (sectionFails payload _)).bind fun scan _ => ?_
  refine (unfit (sectionFails payload _)).bind fun limits _ => ?_
  refine (unfit (sectionFails payload _)).bind fun editor _ => ?_
  refine (unfit (sectionFails payload _)).bind fun guard _ => ?_
  refine (unfit (sectionFails payload _)).bind fun watch table => ?_
  refine (unfit (mergeScanFails base scan)).bind fun _ _ => ?_
  refine (unfit (mergeLimitsFails base.limits limits)).bind fun _ _ => ?_
  refine (unfit (mergeEditorFails base.editor editor)).bind fun _ _ => ?_
  refine (unfit (mergeGuardFails base.guard guard)).bind fun _ _ => ?_
  rw [(sectionIff.mp table).2]
  exact (mergeWatchFails base.watch payload).bind fun _ _ => .ok _

theorem overrideFails (here : AbsPath) (base : Settings) (o : Overrides) : Fails Unfit (override here base o) := by
  rw [overrideSteps]
  refine (positiveIntFails _ _).bind fun _ _ => (positiveIntFails _ _).bind fun _ _ => ?_
  refine (choiceFails _ _).bind fun _ _ => (choiceFails _ _).bind fun _ _ => ?_
  refine Fails.bind ?_ fun _ _ => .ok _
  cases o.dataDir with
  | none => exact .ok _
  | some text => exact resolveFails here text

theorem mergeFails (here : AbsPath) (base : Settings) (payload : Fields) (o : Overrides) :
    Fails (fun fault => Unfit fault ∨ fault = .floatRange ∧ Overflows payload) (merge here base payload o) :=
  (mergeFileFails base payload).bind fun between _ => (overrideFails here between o).mono fun _ => .inl

theorem addNewExactly (known items : List String) :
    addNew known items = known ++ (items.filter (· ∉ known)).eraseDups := by
  unfold addNew
  induction items generalizing known with
  | nil => simp
  | cons item items ih =>
    rw [List.foldl_cons, ih]
    by_cases old : item ∈ known
    · rw [if_pos (List.contains_iff_mem.mpr old), List.filter_cons_of_neg (by simpa using old)]
    · have later : items.filter (· ∉ known ++ [item]) = (items.filter (· ∉ known)).filter (fun other => !other == item) := by
        rw [List.filter_filter]
        refine List.filter_congr fun other _ => ?_
        by_cases same : other = item <;> simp [same]
      rw [if_neg (by simpa using old), later, List.filter_cons_of_pos (by simpa using old), List.eraseDups_cons,
        List.append_assoc, List.singleton_append]

theorem layeredExactly (bounded : base.Bounded) :
    (∀ s, merge here base payload o = .ok s ↔ Layered here base payload o s) ∧
    (∀ s, Layered here base payload o s → s.Bounded) ∧
    (∀ fault, merge here base payload o = .error fault →
      fault.isInvalid = true ∨ fault = .floatRange ∧ Overflows payload) ∧
    ∀ (s : Settings) (patterns : List String), s.withExcludes patterns = { s with scan := { s.scan with
      excludeGlobs := s.scan.excludeGlobs ++ (patterns.filter (· ∉ s.scan.excludeGlobs)).eraseDups } } := by
  refine ⟨fun s => mergeIff, fun s layered => layered.bounded bounded, mergeFails here base payload o, ?_⟩
  intro s patterns
  rw [withExcludes, addNewExactly]

def fileLayer : Fields :=
  [("scan", .record [("roots", Value.ofTexts ["app", "../lib"]), ("include_extensions", Value.ofTexts [" PHP", ".inc"])]),
    ("limits", .record [("batch_size", .int 10), ("max_file_bytes", .null)]),
    ("guard", .record [("mode", .text "warn")])]

def lenientLayer : Overrides := { guardMode := .text "lenient" }

def layersMerged : Settings :=
  { default ⟨["w"]⟩ with
    scan := { roots := [⟨["w", "app"]⟩, ⟨["lib"]⟩], includeExtensions := [".php", ".inc"] }
    limits := { batchSize := 10 }
    guard := { mode := "lenient" } }

theorem threeLayersMerged :
    (default ⟨["w"]⟩).Bounded ∧ merge ⟨[]⟩ (default ⟨["w"]⟩) fileLayer lenientLayer = .ok layersMerged ∧
      Layered ⟨[]⟩ (default ⟨["w"]⟩) fileLayer lenientLayer layersMerged ∧ layersMerged.Bounded := by
  have bounded : (default ⟨["w"]⟩).Bounded := by constructor <;> decide
  have merged : merge ⟨[]⟩ (default ⟨["w"]⟩) fileLayer lenientLayer = .ok layersMerged := by decide +kernel
  obtain ⟨exactly, bounds, -⟩ := @layeredExactly ⟨[]⟩ _ fileLayer lenientLayer bounded
  have layered := (exactly layersMerged).mp merged
  exact ⟨bounded, merged, layered, bounds _ layered⟩

def endlessSeconds : Fields := [("watch", .record [("debounce_seconds", .int (Nat.pow 10 400))])]

theorem endlessSecondsEscape :
    merge ⟨[]⟩ (default ⟨["w"]⟩) endlessSeconds {} = .error .floatRange ∧ Fault.floatRange.isInvalid = false := by
  constructor <;> decide +kernel

end Settings
end DebugSweep
