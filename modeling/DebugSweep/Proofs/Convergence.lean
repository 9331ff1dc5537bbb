import DebugSweep.Proofs.Batches
import DebugSweep.Proofs.ClearedFiles
import DebugSweep.Proofs.Emptying

/-! Scanning a file, clearing what was found and scanning it again. Main statement: if the statements of
the text can be taken out on their own, all are cleared and the second scan finds nothing. -/
namespace DebugSweep
open Text

namespace Disk
variable {d : Disk} {p : AbsPath}

theorem foldlSteps {α β ε : Type} {step : α → β → Except ε α} {state : List β → α} {done xs : List β}
    (moves : ∀ front x back, done ++ xs = front ++ x :: back → step (state front) x = .ok (state (front ++ [x]))) :
    xs.foldlM step (state done) = .ok (state (done ++ xs)) := by
  induction xs generalizing done with
  | nil =>
    rw [List.append_nil]
    rfl
  | cons x rest ih =>
    have whole : done ++ x :: rest = done ++ [x] ++ rest := by simp
    rw [List.foldlM_cons, moves done x rest rfl, whole]
    apply ih
    rw [← whole]
    exact moves

theorem Settled.walks (settled : d.Settled p) (proper : p.Proper) : d.walk (Written.ofText p.text) = .ok p := by
  have above : ∀ front name back, p.names = front ++ name :: back → d.get? ⟨front⟩ = some .dir := by
    intro front name back split
    apply settled.above ⟨front⟩ (split ▸ List.prefix_append _ _)
    intro same
    have sizes := congrArg (fun q : AbsPath => q.names.length) same
    simp only [split, List.length_append, List.length_cons] at sizes
    omega
  rw [proper.written]
  unfold walk
  dsimp only
  rw [if_neg (by decide)]
  refine @foldlSteps _ _ _ _ AbsPath.mk [] p.names ?_
  intro front name back split
  have member : name ∈ p.names := by
    rw [List.nil_append] at split
    simp [split]
  have other : name ≠ ".." := (AbsPath.properParts (proper name member)).2.2.1
  rw [above front name back split]
  simp [other, AbsPath.child]

theorem draftOther (deep : p.names ≠ []) : p.draft ≠ p := by
  intro same
  obtain ⟨front, last, names⟩ := (List.eq_nil_or_concat' p.names).resolve_left deep
  have draft : p.draft.names = front ++ [last ++ ".tmp"] := by
    simp [AbsPath.draft, AbsPath.child, AbsPath.parent, AbsPath.name, names]
  rw [same, names] at draft
  have longer := congrArg String.length (List.cons.inj (List.append_cancel_left draft)).1
  rw [String.length_append] at longer
  have size : (".tmp" : String).length = 4 := rfl
  omega

end Disk

namespace Clear
open Disk Scan
variable {d : Disk} {p : AbsPath}

theorem draftWritten (settled : d.Settled p) (free : d.Free p.draft) (content : ByteArray) :
    ∃ wrote, d.write p.draft content = .ok wrote := by
  have beside : p.draft.parent = p.parent := by simp [AbsPath.draft, AbsPath.child, AbsPath.parent]
  have folder : d.isDir p.draft.parent = true := by
    rw [beside, isDirIff]
    apply settled.above _ (List.dropLast_prefix _)
    intro same
    have sizes := congrArg (fun q : AbsPath => q.names.length) same
    simp only [List.length_dropLast] at sizes
    have deep := List.length_pos_of_ne_nil settled.deep
    omega
  exact writeFree free folder content

theorem swapInDone (settled : d.Settled p) (free : d.Free p.draft) (text : List Char) :
    ∃ d', swapIn .plain d p text = (some (), d') ∧ Rewrites p (String.ofList text).toUTF8 d d' := by
  have draft := draftOther settled.deep
  obtain ⟨wrote, written⟩ := draftWritten settled free (String.ofList text).toUTF8
  have file := ((writeKeeps settled.above draft written).settled settled).file
  have drafted := (writtenFile written).2
  obtain ⟨moved, replaced⟩ : ∃ moved, wrote.replace p.draft p = .ok moved := by
    unfold replace
    rw [drafted]
    cases there : wrote.get? p with
    | none => exact ⟨_, rfl⟩
    | some node =>
      cases node with
      | dir => simp [isLeaf, there] at file
      | file => exact ⟨_, rfl⟩
      | special => exact ⟨_, rfl⟩
  refine ⟨moved, ?_, movedRewrites settled draft written replaced⟩
  simp only [swapInPlain, written, replaced]

theorem readSourceSettled {content : ByteArray} {mtime : Int} {text : String} (settled : d.Settled p)
    (proper : p.Proper) (file : d.get? p = some (.file content mtime)) (valid : decode? content = some text) :
    readSource? d p.text = some (p, text) := by
  have readable : d.read p = .ok content := by
    unfold Disk.read Disk.find
    rw [file]
    rfl
  exact readSourceIff.mpr ⟨by simp [leadsTo?, settled.walks proper, Except.toOption], by simp [readable, valid, Except.toOption]⟩

theorem onePath {findings : List Finding} {path : String} (some : findings ≠ [])
    (named : ∀ f ∈ findings, f.filePath = path) :
    ((findings.map Finding.filePath).mergeSort (fun a b => decide (a ≤ b))).eraseReps = [path] := by
  obtain ⟨rising, members⟩ :
      ((findings.map Finding.filePath).mergeSort (fun a b => decide (a ≤ b))).eraseReps.Pairwise (· < ·) ∧ _ :=
    sortedOnce id (findings.map Finding.filePath) (fun a _ b _ same => same)
  have every : ∀ other ∈ ((findings.map Finding.filePath).mergeSort (fun a b => decide (a ≤ b))).eraseReps,
      other = path := by
    intro other member
    obtain ⟨f, inside, rfl⟩ := List.mem_map.mp ((members other).mp member)
    exact named f inside
  have present : path ∈ ((findings.map Finding.filePath).mergeSort (fun a b => decide (a ≤ b))).eraseReps := by
    obtain ⟨f, inside⟩ := List.exists_mem_of_ne_nil _ some
    exact (members path).mpr (List.mem_map.mpr ⟨f, inside, named f inside⟩)
  generalize ((findings.map Finding.filePath).mergeSort (fun a b => decide (a ≤ b))).eraseReps = paths at *
  match paths with
  | [] => contradiction
  | [only] => rw [every only List.mem_cons_self]
  | first :: second :: rest =>
    have order : first < second := (List.pairwise_cons.mp rising).1 second List.mem_cons_self
    rw [every first (by simp), every second (by simp)] at order
    exact absurd order (String.lt_irrefl path)

theorem fromFilesNone (d : Disk) : fromFiles d [] [] = (.ok {}, d) := by
  simp [fromFiles, fromFilesBy, clearEach, List.eraseReps, List.eraseRepsBy]

theorem textFile {origin : Origin} {source : List Char} : ∀ f ∈ text origin source, f.filePath = origin.filePath := by
  intro f member
  rw [textRows] at member
  obtain ⟨row, -, inside⟩ := List.mem_flatMap.mp member
  obtain ⟨m, -, found⟩ := List.mem_filterMap.mp inside
  exact (findingOrigin found).1

theorem fromFilesOne {content : ByteArray} {mtime : Int} {source : String} {findings : List Finding}
    (settled : d.Settled p) (proper : p.Proper) (free : d.Free p.draft)
    (file : d.get? p = some (.file content mtime)) (valid : decode? content = some source)
    (some : findings ≠ []) (named : ∀ f ∈ findings, f.filePath = p.text)
    (clears : (fromLines (lines source.toList) findings).cleared ≠ 0) :
    ∃ d', fromFiles d findings [] =
        (.ok { cleared := (fromLines (lines source.toList) findings).cleared
               stale := (fromLines (lines source.toList) findings).stale
               filesChanged := [p.text] }, d') ∧
      Rewrites p (String.ofList (clearText source.toList findings)).toUTF8 d d' := by
  have whole : findings.filter (fun f => f.filePath == p.text) = findings :=
    List.filter_eq_self.mpr (by simpa using named)
  have unmarked : findings.filter (fun f => !([] : List String).contains f.id) = findings :=
    List.filter_eq_self.mpr (by simp)
  have done : ((fromLines (lines source.toList) findings).cleared == 0) = false := by simpa using clears
  obtain ⟨d', swapped, rewrites⟩ := swapInDone settled free (clearText source.toList findings)
  refine ⟨d', ?_, rewrites⟩
  rw [clearText] at swapped
  simp only [fromFiles, fromFilesBy, unmarked, onePath some named, clearEach, proper.noNull, clearFilePlain,
    readSourceSettled settled proper file valid, whole, done, swapped, Nat.sub_self]
  simp

end Clear

theorem encodedCons (c : Char) (rest : List Char) :
    (c :: rest).utf8Encode.size = c.utf8Size + rest.utf8Encode.size := by
  have single : [c].utf8Encode.size = c.utf8Size := by
    rw [List.utf8Encode_singleton, List.size_toByteArray, String.length_utf8EncodeChar]
  rw [List.utf8Encode_cons, ByteArray.size_append, single]

theorem encodedSize {few many : List Char} (sub : few.Sublist many) :
    few.utf8Encode.size ≤ many.utf8Encode.size ∧ (few.utf8Encode.size = many.utf8Encode.size → few = many) := by
  induction sub with
  | slnil => exact ⟨Nat.le_refl _, fun _ => rfl⟩
  | cons c sub ih =>
    have positive := Char.utf8Size_pos c
    rw [encodedCons]
    exact ⟨by omega, fun same => by omega⟩
  | cons_cons c sub ih =>
    rw [encodedCons, encodedCons]
    exact ⟨by omega, fun same => congrArg (c :: ·) (ih.2 (by omega))⟩

theorem decodedBytes {content : ByteArray} {text : String} (valid : decode? content = some text) :
    content = text.toList.utf8Encode := by
  unfold decode? String.fromUTF8? at valid
  split at valid
  · obtain rfl := Option.some.inj valid
    rw [← String.toByteArray_ofList, String.ofList_toList]
    rfl
  · contradiction

theorem Cache.lookupOther {c : Cache} {path mark mark' : String} {findings : List Finding}
    (hit : c.lookup? path mark = some findings) (other : mark' ≠ mark) : c.lookup? path mark' = none := by
  unfold Cache.lookup? at hit ⊢
  split at hit
  · split at hit
    · rename_i same
      rw [beq_iff_eq] at same
      simp [same, other.symm]
    · contradiction
  · contradiction

namespace Source
variable {source : Source} {p : AbsPath} {content : ByteArray} {mtime : Int}

theorem statCalm (calm : source.faults = {}) (file : source.disk.get? p = some (.file content mtime)) :
    source.stat p = .ok ⟨content.size, mtime⟩ := by
  have free : troubled source.faults.stat p.text = .ok () := by rw [calm]; rfl
  simp [stat, free, Disk.find, file, bind, Except.bind, Except.mapError, pure, Except.pure]

theorem readCalm (calm : source.faults = {}) (file : source.disk.get? p = some (.file content mtime)) :
    (source.readText p).1 = .ok (textOf content) := by
  have free : troubled source.faults.readText p.text = .ok () := by rw [calm]; rfl
  simp [readText, free, Disk.read, Disk.find, file, bind, Except.bind, Except.mapError, pure, Except.pure]

end Source

namespace Engine
variable {e : Engine} {source : Source} {p : AbsPath}

theorem scanFileKnown {findings : List Finding} (scanned : (e.scanFile source p).1 = .ok findings) :
    ∃ stat, source.stat p = .ok stat ∧ ¬ e.settings.limits.maxFileBytes < stat.size ∧
      (e.scanFile source p).2.1.settings = e.settings ∧
      (e.scanFile source p).2.1.cache.lookup? p.text (fingerprint stat.size stat.mtime) = some findings := by
  cases sized : source.stat p with
  | error fault =>
    rw [scanFileUnsized sized, failedReported] at scanned
    contradiction
  | ok stat =>
    by_cases large : e.settings.limits.maxFileBytes < stat.size
    · rw [scanFileLarge sized large] at scanned
      contradiction
    · refine ⟨stat, rfl, large, ?_⟩
      cases hit : e.cache.lookup? p.text (fingerprint stat.size stat.mtime) with
      | some known =>
        rw [scanFileHit sized large hit] at scanned ⊢
        exact ⟨rfl, hit.trans (congrArg some (Except.ok.inj scanned))⟩
      | none =>
        rw [scanFileMiss sized large hit] at scanned ⊢
        cases read : (source.readText p).1 with
        | error fault =>
          rw [read] at scanned
          change (e.failed p fault).1 = _ at scanned
          rw [failedReported] at scanned
          contradiction
        | ok chars =>
          rw [read] at scanned
          obtain rfl := Except.ok.inj scanned
          exact ⟨rfl, Cache.lookupStoreSame _ _ _ _ _⟩

theorem scanFileRead {stat : FileStat} {chars : List Char} (sized : source.stat p = .ok stat)
    (small : ¬ e.settings.limits.maxFileBytes < stat.size)
    (miss : e.cache.lookup? p.text (fingerprint stat.size stat.mtime) = none)
    (read : (source.readText p).1 = .ok chars) :
    (e.scanFile source p).1 = .ok (Scan.text ⟨p.text, relativePath { settings := e.settings } ⟨[]⟩ p.text⟩ chars) := by
  rw [scanFileMiss sized small miss, read]
  rfl

-- Less is left than there was, or else the findings would still be there.
theorem leftSmaller {text : String} {origin : Scan.Origin} (separable : Clear.Separable text.toList)
    (some : Scan.text origin text.toList ≠ []) :
    (Clear.clearText text.toList (Scan.text origin text.toList)).utf8Encode.size < text.toList.utf8Encode.size := by
  obtain ⟨fewer, same⟩ := encodedSize (Clear.clearTextSublist origin text.toList)
  refine Nat.lt_of_le_of_ne fewer fun equal => some ?_
  have none := separable.emptied origin
  rwa [same equal, Scan.normalizedFindings origin separable.returns] at none

theorem findingsSeparable {content : ByteArray} {text : String} (settings : Settings) (p : AbsPath)
    (valid : decode? content = some text) (separable : Clear.Separable text.toList) :
    findingsOf settings p content =
      Scan.text ⟨p.text, relativePath { settings } ⟨[]⟩ p.text⟩ text.toList := by
  rw [findingsOf, Source.textOf, Clear.decodeLossyValid valid]
  exact Scan.normalizedFindings _ separable.returns

theorem smallerRescanned (source' : Source) {content content' : ByteArray} {mtime mtime' : Int}
    {findings : List Finding} (scanned : (e.scanFile source p).1 = .ok findings) (calm : source.faults = {})
    (file : source.disk.get? p = some (.file content mtime)) (calm' : source'.faults = {})
    (file' : source'.disk.get? p = some (.file content' mtime')) (smaller : content'.size < content.size) :
    ((e.scanFile source p).2.1.scanFile source' p).1 = .ok (findingsOf e.settings p content') := by
  obtain ⟨stat, sized, small, settings, known⟩ := scanFileKnown scanned
  rw [Source.statCalm calm file] at sized
  obtain rfl := Except.ok.inj sized
  have marks : fingerprint content'.size mtime' ≠ fingerprint content.size mtime := fun same =>
    Nat.ne_of_lt smaller (fingerprintInjective same).1
  have less : ¬ (e.scanFile source p).2.1.settings.limits.maxFileBytes < content'.size := by
    rw [settings]
    exact fun large => small (Nat.lt_trans large smaller)
  have read := scanFileRead (Source.statCalm calm' file') less (Cache.lookupOther known marks)
    (Source.readCalm calm' file')
  rwa [settings] at read

theorem sameRescanned {source' : Source} {content : ByteArray} {mtime : Int} {findings : List Finding}
    (scanned : (e.scanFile source p).1 = .ok findings) (calm : source.faults = {})
    (file : source.disk.get? p = some (.file content mtime)) (calm' : source'.faults = {})
    (file' : source'.disk.get? p = some (.file content mtime)) :
    ((e.scanFile source p).2.1.scanFile source' p).1 = .ok findings := by
  obtain ⟨stat, sized, small, settings, known⟩ := scanFileKnown scanned
  rw [Source.statCalm calm file] at sized
  obtain rfl := Except.ok.inj sized
  rw [scanFileHit (Source.statCalm calm' file') (by rwa [settings]) known]

theorem scannedFound {content : ByteArray} {mtime : Int} {findings : List Finding} (proper : p.Proper)
    (correct : e.Correct source.disk) (calm : source.faults = {})
    (file : source.disk.get? p = some (.file content mtime))
    (scanned : (e.scanFile source p).1 = .ok findings) : findings = findingsOf e.settings p content := by
  have system : source.faults.SystemOnly := by simp [calm, Faults.SystemOnly]
  cases able : e.scannable source p with
  | false =>
    obtain ⟨fault, refused, -⟩ := refusedWhenUnscannable system able
    rw [scanned] at refused
    contradiction
  | true =>
    rw [scannedWhenScannable correct proper able] at scanned
    have held : contentOf? source.disk p = some content := by simp [contentOf?, file]
    rw [← Except.ok.inj scanned, presentFindings, held]

def Converges (e : Engine) (source : Source) (p : AbsPath) : Prop :=
  ∀ findings, (e.scanFile source p).1 = .ok findings →
    ∃ report d', Clear.fromFiles source.disk findings [] = (.ok report, d') ∧
      report.cleared = findings.length ∧ report.stale = 0 ∧ report.failedFiles = [] ∧
      ((e.scanFile source p).2.1.scanFile { (e.scanFile source p).2.2 with disk := d' } p).1 = .ok []

theorem scanClearRescan {content : ByteArray} {mtime : Int} {text : String} (proper : p.Proper)
    (settled : source.disk.Settled p) (free : source.disk.Free p.draft) (calm : source.faults = {})
    (correct : e.Correct source.disk) (file : source.disk.get? p = some (.file content mtime))
    (valid : decode? content = some text) (separable : Clear.Separable text.toList) : e.Converges source p := by
  intro findings scanned
  have calm' : (e.scanFile source p).2.2.faults = {} := (scanFileSteady e source proper).faults.trans calm
  have found := scannedFound proper correct calm file scanned
  rw [findingsSeparable e.settings p valid separable] at found
  by_cases empty : findings = []
  · rw [empty] at scanned ⊢
    refine ⟨{}, source.disk, Clear.fromFilesNone source.disk, rfl, rfl, rfl, ?_⟩
    exact sameRescanned scanned calm file calm' file
  · have named : ∀ f ∈ findings, f.filePath = p.text := by
      rw [found]
      exact Clear.textFile
    have cut := @Clear.fromLinesExact ⟨p.text, relativePath { settings := e.settings } ⟨[]⟩ p.text⟩ text.toList
      separable.exact
    rw [← found] at cut
    obtain ⟨d', cleared, rewrites⟩ := Clear.fromFilesOne settled proper free file valid empty named
      (by rw [cut]; simpa using empty)
    obtain ⟨mtime', file'⟩ := rewrites.file
    have smaller : (String.ofList (Clear.clearText text.toList findings)).toUTF8.size < content.size := by
      rw [decodedBytes valid, found]
      exact leftSmaller separable (found ▸ empty)
    refine ⟨_, d', cleared, by rw [cut], by rw [cut], rfl, ?_⟩
    have rescanned := smallerRescanned { (e.scanFile source p).2.2 with disk := d' } scanned calm file calm' file'
      smaller
    rw [rescanned, findingsOf, Source.textOf, Clear.decodeLossyValid (Clear.decodeEncoded _), String.toList_ofList,
      found]
    exact congrArg Except.ok (separable.emptied _)

def dumps : String :=
  "<?php\r\nif ($x) \x7b dd([1, \"a;b\"]); exit; /* echo */ echo 2; \x7d // dd(3);\r\n  var_dump($y);\r\n$z = 1;"

theorem dumpsConverge :
    (findingsOf (Settings.default ⟨["w"]⟩) ⟨["w", "a.php"]⟩ dumps.toUTF8).length = 3 ∧
      Converges { settings := Settings.default ⟨["w"]⟩ } (written dumps 1) ⟨["w", "a.php"]⟩ := by
  have valid := Clear.decodeEncoded dumps
  have separable : Clear.Separable dumps.toList := by decide +kernel
  have nothing : (written dumps 1).disk.get? (AbsPath.draft ⟨["w", "a.php"]⟩) = none := rfl
  refine ⟨?_, scanClearRescan (by decide) (by decide) (by simp [Disk.Free, nothing]) rfl (uncached _ _) rfl valid separable⟩
  rw [findingsSeparable _ _ valid separable]
  decide +kernel

def loneReturn : String := "dd(1);\rdd(2);\n"

def loneReturnFindings : List Finding :=
  findingsOf (Settings.default ⟨["w"]⟩) ⟨["w", "a.php"]⟩ loneReturn.toUTF8

theorem loneReturnFound : loneReturnFindings = Scan.text
    ⟨"/w/a.php", relativePath { settings := Settings.default ⟨["w"]⟩ } ⟨[]⟩ "/w/a.php"⟩ "dd(1);\ndd(2);\n".toList := by
  rw [loneReturnFindings, findingsOf, Source.textOf, Clear.decodeLossyValid (Clear.decodeEncoded loneReturn)]
  have plain : normalizeEndings loneReturn.toList = "dd(1);\ndd(2);\n".toList := by decide +kernel
  rw [plain]
  rfl

-- The scan takes the carriage return as the end of a line, clearing does not.
theorem loneReturnStays :
    ¬ Converges { settings := Settings.default ⟨["w"]⟩ } (written loneReturn 1) ⟨["w", "a.php"]⟩ := by
  intro converges
  have file : (written loneReturn 1).disk.get? ⟨["w", "a.php"]⟩ = some (.file loneReturn.toUTF8 1) := rfl
  have nothing : (written loneReturn 1).disk.get? (AbsPath.draft ⟨["w", "a.php"]⟩) = none := rfl
  have small : ¬ (Settings.default ⟨["w"]⟩).limits.maxFileBytes < loneReturn.toUTF8.size := by decide +kernel
  obtain ⟨report, d', cleared, counted, -⟩ := converges loneReturnFindings
    (scanFileRead (Source.statCalm rfl file) small rfl (Source.readCalm rfl file))
  have found := loneReturnFound
  have two : loneReturnFindings.length = 2 := by
    rw [found]
    decide +kernel
  have one : (Clear.fromLines (lines loneReturn.toList) loneReturnFindings).cleared = 1 := by
    rw [Clear.fromLines, found, Clear.fallingOrder (by decide +kernel)]
    decide +kernel
  have named : ∀ f ∈ loneReturnFindings, f.filePath = "/w/a.php" := Clear.textFile
  obtain ⟨d'', actual, -⟩ := Clear.fromFilesOne (by decide) (by decide) (by simp [Disk.Free, nothing]) file
    (Clear.decodeEncoded loneReturn) (by rw [← List.length_pos_iff]; omega) named (by omega)
  rw [actual, one] at cleared
  obtain ⟨same, -⟩ := Prod.mk.inj cleared
  obtain rfl := Except.ok.inj same
  rw [two] at counted
  contradiction

end Engine
end DebugSweep
