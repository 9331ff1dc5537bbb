import DebugSweep.Proofs.Refusals

/-! Clearing several files while the system refuses some of what is asked of it. Main statement: if the
paths lead to different files, each file is left as it was or holds its former text without its free
findings, and the report tells which. -/
namespace DebugSweep

namespace Disk

/-- Different paths lead to different places, and none to the draft beside another one's place. -/
def Separate (d : Disk) (paths : List String) : Prop :=
  ∀ path ∈ paths, ∀ other ∈ paths, path ≠ other →
    ∀ p ∈ d.leadsTo? path, ∀ q ∈ d.leadsTo? other, p ≠ q ∧ p ≠ q.draft

instance (d : Disk) (paths : List String) : Decidable (d.Separate paths) :=
  inferInstanceAs (Decidable (∀ path ∈ paths, _))

def reachedBy (d : Disk) (paths : List String) : List AbsPath :=
  (paths.filterMap d.leadsTo?).flatMap (fun p => [p, p.draft])

def accessesTo (d : Disk) (paths : List String) : List Access :=
  (paths.filterMap d.leadsTo?).flatMap Watched.clearingOf

def Kept (d d' : Disk) (path : String) : Prop := ∀ p ∈ d.leadsTo? path, d'.get? p = d.get? p

def Rewritten (d d' : Disk) (path : String) (findings : List Finding) : Prop :=
  ∃ place text mtime, Clear.readSource? d path = some (place, text) ∧
    d'.get? place = some (.file (String.ofList (Clear.clearText text.toList findings)).toUTF8 mtime)

section
variable {d d' d'' : Disk} {places : List AbsPath} {paths others : List String} {path : String} {p : AbsPath}
  {findings : List Finding}

theorem Shifts.leads (shifts : Shifts places d d') (path : String) : d'.leadsTo? path = d.leadsTo? path := by
  unfold leadsTo? walk
  rw [shifts.here]
  generalize (if (Written.ofText path).root == "" then d.here else ⟨[]⟩) = start
  induction (Written.ofText path).names generalizing start with
  | nil => rfl
  | cons name rest ih =>
    rw [List.foldlM_cons, List.foldlM_cons]
    by_cases directory : d.get? start = some .dir
    · rw [directory, (shifts.folder start).mpr directory]
      exact ih _
    · have other : d'.get? start ≠ some .dir := fun there => directory ((shifts.folder start).mp there)
      -- No name is found below what is no directory, whatever it is.
      rcases there : d.get? start with _ | _ | _ | _ <;> rcases there' : d'.get? start with _ | _ | _ | _ <;>
        first | rfl | contradiction

theorem Shifts.reaches (shifts : Shifts places d d') (paths : List String) :
    d'.reachedBy paths = d.reachedBy paths ∧ d'.accessesTo paths = d.accessesTo paths := by
  have same : paths.filterMap d'.leadsTo? = paths.filterMap d.leadsTo? :=
    List.filterMap_congr (fun path _ => shifts.leads path)
  exact ⟨by rw [reachedBy, reachedBy, same], by rw [accessesTo, accessesTo, same]⟩

theorem reachedAppend : d.reachedBy (paths ++ others) = d.reachedBy paths ++ d.reachedBy others := by
  simp [reachedBy, List.filterMap_append]

theorem accessesAppend : d.accessesTo (paths ++ others) = d.accessesTo paths ++ d.accessesTo others := by
  simp [accessesTo, List.filterMap_append]

-- What a path leads to is not reached through the others.
theorem Separate.unreached (separate : d.Separate paths) (inside : path ∈ paths) (among : others ⊆ paths)
    (fresh : path ∉ others) (leads : d.leadsTo? path = some p) : p ∉ d.reachedBy others := by
  intro reached
  obtain ⟨q, member, touched⟩ := List.mem_flatMap.mp reached
  obtain ⟨other, listed, found⟩ := List.mem_filterMap.mp member
  have apart : path ≠ other := fun same => fresh (same ▸ listed)
  obtain ⟨place, draft⟩ := separate path inside other (among listed) apart p leads q found
  simp only [List.mem_cons, List.not_mem_nil, or_false] at touched
  exact touched.elim place draft

theorem Kept.later (kept : Kept d d' path) (same : ∀ p ∈ d.leadsTo? path, d''.get? p = d'.get? p) :
    Kept d d'' path :=
  fun p leads => (same p leads).trans (kept p leads)

theorem Rewritten.later (rewritten : Rewritten d d' path findings)
    (same : ∀ p ∈ d.leadsTo? path, d''.get? p = d'.get? p) : Rewritten d d'' path findings := by
  obtain ⟨place, text, mtime, source, file⟩ := rewritten
  exact ⟨place, text, mtime, source, (same place (Clear.readSourceIff.mp source).1).trans file⟩

theorem Shifts.source (shifts : Shifts places d d') (kept : Kept d d' path) :
    Clear.readSource? d' path = Clear.readSource? d path := by
  have reads : ∀ p ∈ d.leadsTo? path, (d'.read p).toOption = (d.read p).toOption := by
    intro p leads
    unfold read find
    rw [kept p leads]
    cases d.get? p <;> rfl
  apply Option.ext
  rintro ⟨p, text⟩
  rw [Clear.readSourceIff, Clear.readSourceIff, shifts.leads]
  constructor
  · rintro ⟨leads, held⟩
    exact ⟨leads, reads p leads ▸ held⟩
  · rintro ⟨leads, held⟩
    exact ⟨leads, (reads p leads).symm ▸ held⟩

end
end Disk

namespace Clear

def freeIn (findings : List Finding) (bookmarks : List String) (path : String) : List Finding :=
  (findings.filter (fun f => !bookmarks.contains f.id)).filter (fun f => f.filePath == path)

structure Report.Tells (r : Report) (d d' : Disk) (findings : List Finding) (bookmarks : List String) : Prop where
  named : ∀ path ∈ r.filesChanged ++ r.failedFiles, ∃ f ∈ findings, f.id ∉ bookmarks ∧ f.filePath = path
  changedSorted : r.filesChanged.Pairwise (· < ·)
  failedSorted : r.failedFiles.Pairwise (· < ·)
  apart : ∀ path ∈ r.filesChanged, path ∉ r.failedFiles
  changed : ∀ path ∈ r.filesChanged, Disk.Rewritten d d' path (freeIn findings bookmarks path)
  failed : ∀ path ∈ r.failedFiles, Disk.Kept d d' path
  skipped : r.skippedBookmarked = (findings.filter (fun f => bookmarks.contains f.id)).length
  complete : r.failedFiles = [] → r.cleared + r.stale + r.skippedBookmarked = findings.length

theorem removeCounts (cut : Cut) (f : Finding) :
    (cut.remove f).cleared + (cut.remove f).stale = cut.cleared + cut.stale + 1 := by
  unfold Cut.remove
  dsimp only
  split
  · dsimp only
    omega
  · split <;> dsimp only <;> omega

theorem fromLinesCounts (lines : List (List Char)) (findings : List Finding) :
    (fromLines lines findings).cleared + (fromLines lines findings).stale = findings.length := by
  have counts : ∀ (fs : List Finding) (cut : Cut), (fs.foldl Cut.remove cut).cleared +
      (fs.foldl Cut.remove cut).stale = cut.cleared + cut.stale + fs.length := by
    intro fs
    induction fs with
    | nil => simp
    | cons f rest ih =>
      intro cut
      rw [List.foldl_cons, ih, removeCounts, List.length_cons]
      omega
  rw [fromLines, counts, List.length_mergeSort]
  simp

theorem groupCounted {findings : List Finding} {done : List String} {path : String} (fresh : path ∉ done) :
    (findings.filter (fun f => (done ++ [path]).contains f.filePath)).length =
      (findings.filter (fun f => done.contains f.filePath)).length +
        (findings.filter (fun f => f.filePath == path)).length := by
  simp only [← List.countP_eq_length_filter]
  induction findings with
  | nil => rfl
  | cons f rest ih =>
    rw [List.countP_cons, List.countP_cons, List.countP_cons, ih]
    by_cases here : f.filePath = path
    · simp [here, fresh]
      omega
    · by_cases before : f.filePath ∈ done
      · simp [here, before]
        omega
      · simp [here, before]

end Clear

namespace Watched
open Clear (Report clearFile clearEach)
open Text

inductive Runs (system : System) (findings : List Finding) :
    List String → Report → Watched → Report → Watched → Prop
  | done {r : Report} {w : Watched} : Runs system findings [] r w r w
  | next {path : String} {rest : List String} {r r₁ r' : Report} {w w₁ w' : Watched}
      (first : Treated system path (findings.filter (fun f => f.filePath == path)) r w r₁ w₁)
      (later : Runs system findings rest r₁ w₁ r' w') : Runs system findings (path :: rest) r w r' w'

structure Reached (d : Disk) (done : List String) (w : Watched) : Prop where
  shifts : Disk.Shifts (d.reachedBy done) d w.disk
  noted : w.log ⊆ d.accessesTo done

structure Accounted (d : Disk) (findings : List Finding) (done : List String) (r : Report) (w : Watched) : Prop
    extends Reached d done w where
  changed : r.filesChanged.Sublist done
  failed : r.failedFiles.Sublist done
  apart : ∀ path ∈ r.filesChanged, path ∉ r.failedFiles
  rewritten : ∀ path ∈ r.filesChanged,
    Disk.Rewritten d w.disk path (findings.filter (fun f => f.filePath == path))
  kept : ∀ path ∈ done, path ∉ r.filesChanged → Disk.Kept d w.disk path
  counted : r.failedFiles = [] →
    r.cleared + r.stale = (findings.filter (fun f => done.contains f.filePath)).length

section
variable {system : System} {findings : List Finding} {path : String} {paths done rest : List String}
  {r r' : Report} {w w' : Watched} {d : Disk}

theorem Treated.shifts (treated : Treated system path findings r w r' w') (rooted : w.disk.Rooted) :
    Disk.Shifts (w.disk.reachedBy [path]) w.disk w'.disk := by
  cases treated with
  | unread disk | uncut _ _ _ disk =>
    rw [disk]
    exact .refl rooted
  | rewritten leads _ swapped =>
    cases swapped with
    | moved shifts => exact shifts.mono (by simp [Disk.reachedBy, leads])
  | refused leads _ swapped =>
    cases swapped with
    | left shifts => exact shifts.mono (by simp [Disk.reachedBy, leads])

theorem Treated.adds (treated : Treated system path findings r w r' w') :
    Adds (w.disk.accessesTo [path]) w w' := by
  cases treated with
  | unread _ adds =>
    apply adds.mono
    cases leads : w.disk.leadsTo? path <;> simp [Disk.accessesTo, leads, clearingOf]
  | uncut leads _ _ _ adds => exact adds.mono (by simp [Disk.accessesTo, leads, clearingOf])
  | rewritten leads _ _ adds | refused leads _ _ adds => exact adds.mono (by simp [Disk.accessesTo, leads])

theorem Treated.tells (treated : Treated system path findings r w r' w') :
    r'.skippedBookmarked = r.skippedBookmarked ∧ ∃ changed failed,
      r'.filesChanged = r.filesChanged ++ changed ∧ r'.failedFiles = r.failedFiles ++ failed ∧
      (changed = [path] ∧ failed = [] ∧ Disk.Rewritten w.disk w'.disk path findings ∨
        changed = [] ∧ failed.Sublist [path] ∧ Disk.Kept w.disk w'.disk path) ∧
      (failed = [] → r'.cleared + r'.stale = r.cleared + r.stale + findings.length) := by
  have counts := fun text : String => Clear.fromLinesCounts (lines text.toList) findings
  cases treated with
  | unread disk =>
    refine ⟨rfl, [], [path], by simp, rfl, .inr ⟨rfl, List.Sublist.refl _, fun p _ => by rw [disk]⟩, by simp⟩
  | @uncut _ _ text _ _ nothing disk =>
    refine ⟨rfl, [], [], by simp, by simp, .inr ⟨rfl, by simp, fun p _ => by rw [disk]⟩, fun _ => ?_⟩
    have := counts text
    dsimp only
    omega
  | @rewritten _ place text _ source swapped =>
    cases swapped with
    | moved _ _ file =>
      obtain ⟨mtime, there⟩ := file
      refine ⟨rfl, [path], [], rfl, by simp, .inl ⟨rfl, rfl, place, text, mtime, source, there⟩, fun _ => ?_⟩
      have := counts text
      dsimp only
      omega
  | @refused _ place text leads source swapped =>
    cases swapped with
    | left shifts =>
      refine ⟨rfl, [], [path], by simp, rfl, .inr ⟨rfl, List.Sublist.refl _, fun p found => ?_⟩, by simp⟩
      obtain rfl : place = p := Option.some.inj (leads.symm.trans found)
      obtain ⟨-, content, mtime, file, -⟩ := Clear.readSourceFound source
      have deep : place.names ≠ [] := fun top => by simp [Disk.get?, top] at file
      exact shifts.same place (by simpa using (Disk.draftOther deep).symm)

theorem Reached.start (rooted : d.Rooted) : Reached d [] { disk := d } := ⟨.refl rooted, by simp⟩

theorem Reached.step (reached : Reached d done w) (treated : Treated system path findings r w r' w') :
    Reached d (done ++ [path]) w' := by
  have shifts := treated.shifts reached.shifts.rooted
  obtain ⟨sameReach, sameAccess⟩ := reached.shifts.reaches [path]
  constructor
  · rw [Disk.reachedAppend]
    exact (reached.shifts.mono (by simp)).trans ((sameReach ▸ shifts).mono (by simp))
  · rw [Disk.accessesAppend]
    obtain ⟨new, log, added⟩ := treated.adds
    rw [log, List.append_subset]
    exact ⟨List.subset_append_of_subset_left _ reached.noted,
      List.subset_append_of_subset_right _ (sameAccess ▸ added)⟩

theorem Reached.run (reached : Reached d done w) (runs : Runs system findings rest r w r' w') :
    Reached d (done ++ rest) w' := by
  induction runs generalizing done with
  | done => simpa using reached
  | @next path rest _ _ _ _ _ _ first later ih =>
    have parts : done ++ path :: rest = done ++ [path] ++ rest := by simp
    exact parts ▸ ih (reached.step first)

theorem Accounted.start (rooted : d.Rooted) (skipped : Nat) :
    Accounted d findings [] { skippedBookmarked := skipped } { disk := d } where
  toReached := .start rooted
  changed := by simp
  failed := by simp
  apart := by simp
  rewritten := by simp
  kept := by simp
  counted := by simp

-- A file that is new to both lists is added to one of them at most.
theorem apartStays {files fails changed failed : List String} (apart : ∀ path ∈ files, path ∉ fails)
    (filesDone : files ⊆ done) (failsDone : fails ⊆ done) (fresh : path ∉ done)
    (fate : changed = [path] ∧ failed = [] ∨ changed = [] ∧ failed.Sublist [path]) :
    ∀ other ∈ files ++ changed, other ∉ fails ++ failed := by
  intro other member failure
  rcases List.mem_append.mp member with old | new <;> rcases List.mem_append.mp failure with old' | new'
  · exact apart other old old'
  · rcases fate with ⟨-, rfl⟩ | ⟨-, part⟩
    · exact absurd new' List.not_mem_nil
    · obtain rfl := List.mem_singleton.mp (part.subset new')
      exact fresh (filesDone old)
  · rcases fate with ⟨rfl, -⟩ | ⟨rfl, -⟩
    · obtain rfl := List.mem_singleton.mp new
      exact fresh (failsDone old')
    · exact absurd new List.not_mem_nil
  · rcases fate with ⟨-, rfl⟩ | ⟨rfl, -⟩
    · exact absurd new' List.not_mem_nil
    · exact absurd new List.not_mem_nil

theorem Accounted.step (accounted : Accounted d findings done r w) (separate : d.Separate paths)
    (inside : path ∈ paths) (among : done ⊆ paths) (fresh : path ∉ done)
    (treated : Treated system path (findings.filter (fun f => f.filePath == path)) r w r' w') :
    Accounted d findings (done ++ [path]) r' w' := by
  have shifts := treated.shifts accounted.shifts.rooted
  obtain ⟨sameReach, -⟩ := accounted.shifts.reaches [path]
  -- The file was not touched before, and the files before are not touched now.
  have here : Disk.Kept d w.disk path := fun p leads =>
    accounted.shifts.same p (separate.unreached inside among fresh leads)
  have before : ∀ other ∈ done, ∀ p ∈ d.leadsTo? other, w'.disk.get? p = w.disk.get? p := by
    intro other member p leads
    refine shifts.same p (sameReach ▸ separate.unreached (among member) (by simpa using inside) ?_ leads)
    rw [List.mem_singleton]
    rintro rfl
    exact fresh member
  obtain ⟨-, changed, failed, files, fails, fate, counts⟩ := treated.tells
  have whole : ∀ p ∈ d.leadsTo? path, p ∈ w.disk.leadsTo? path := fun p leads =>
    (accounted.shifts.leads path).trans leads
  have changing : changed.Sublist [path] := by rcases fate with ⟨rfl, -⟩ | ⟨rfl, -⟩ <;> simp
  have failing : failed.Sublist [path] := by
    rcases fate with ⟨-, rfl, -⟩ | ⟨-, part, -⟩
    · simp
    · exact part
  refine ⟨accounted.toReached.step treated, ?_, ?_, ?_, ?_, ?_, ?_⟩
  · rw [files]
    exact accounted.changed.append changing
  · rw [fails]
    exact accounted.failed.append failing
  · rw [files, fails]
    exact apartStays accounted.apart accounted.changed.subset accounted.failed.subset fresh
      (fate.imp (fun rewritten => ⟨rewritten.1, rewritten.2.1⟩) (fun kept => ⟨kept.1, kept.2.1⟩))
  · rw [files]
    intro other member
    rcases List.mem_append.mp member with old | new
    · exact (accounted.rewritten other old).later (before other (accounted.changed.subset old))
    · rcases fate with ⟨rfl, -, place, text, mtime, source, file⟩ | ⟨rfl, -⟩
      · obtain rfl := List.mem_singleton.mp new
        exact ⟨place, text, mtime, accounted.shifts.source here ▸ source, file⟩
      · exact absurd new List.not_mem_nil
  · rw [files]
    intro other member unchanged
    rcases List.mem_append.mp member with old | new
    · have still : other ∉ r.filesChanged := fun listed => unchanged (List.mem_append_left _ listed)
      exact (accounted.kept other old still).later (before other old)
    · obtain rfl := List.mem_singleton.mp new
      rcases fate with ⟨rfl, -⟩ | ⟨-, -, kept⟩
      · exact absurd (List.mem_append_right _ List.mem_cons_self) unchanged
      · exact here.later (fun p leads => kept p (whole p leads))
  · rw [fails, List.append_eq_nil_iff]
    rintro ⟨none, none'⟩
    rw [Clear.groupCounted fresh, counts none', accounted.counted none]

theorem Accounted.run (accounted : Accounted d findings done r w) (separate : d.Separate paths)
    (among : done ++ rest ⊆ paths) (once : (done ++ rest).Nodup) (runs : Runs system findings rest r w r' w') :
    Accounted d findings (done ++ rest) r' w' ∧ r'.skippedBookmarked = r.skippedBookmarked := by
  induction runs generalizing done with
  | done => exact ⟨by simpa using accounted, rfl⟩
  | @next path rest _ _ _ _ _ _ first later ih =>
    have fresh : path ∉ done := fun member =>
      (List.nodup_append.mp once).2.2 path member path List.mem_cons_self rfl
    have parts : done ++ path :: rest = done ++ [path] ++ rest := by simp
    have next := accounted.step separate (among (by simp)) (fun x member => among (List.mem_append_left _ member))
      fresh first
    rw [parts] at among once ⊢
    obtain ⟨accounted, skipped⟩ := ih next among once
    exact ⟨accounted, skipped.trans first.tells.1⟩

theorem clearEachRuns (rooted : w.disk.Rooted) :
    (∃ r' w', clearEach (ops system) findings r w paths = (.ok r', w') ∧ Runs system findings paths r w r' w' ∧
      ∀ path ∈ paths, (Written.ofText path).hasNull = false) ∨
    ∃ front path rest r' w', paths = front ++ path :: rest ∧ (Written.ofText path).hasNull = true ∧
      clearEach (ops system) findings r w paths = (.error (.invalid .nullByte), w') ∧
      Runs system findings front r w r' w' := by
  induction paths generalizing r w with
  | nil => exact .inl ⟨r, w, rfl, .done, by simp⟩
  | cons path rest ih =>
    unfold clearEach
    split
    · rename_i null
      exact .inr ⟨[], path, rest, r, w, rfl, null, rfl, .done⟩
    · rename_i proper
      have first := @clearFileTreated system w rooted r path (findings.filter (fun f => f.filePath == path))
      generalize clearFile (ops system) r w path (findings.filter (fun f => f.filePath == path)) = step at first ⊢
      obtain ⟨r₁, w₁⟩ := step
      rcases @ih r₁ w₁ (first.shifts rooted).rooted with
        ⟨r', w', step, runs, free⟩ | ⟨front, other, behind, r', w', parts, null, step, runs⟩
      · refine .inl ⟨r', w', step, .next first runs, ?_⟩
        simpa using ⟨by simpa using proper, free⟩
      · exact .inr ⟨path :: front, other, behind, r', w', by rw [parts]; rfl, null, step, .next first runs⟩

theorem Accounted.untouched {p : AbsPath} (accounted : Accounted d findings done r w) (separate : d.Separate paths)
    (inside : path ∈ paths) (among : done ⊆ paths) (fresh : path ∉ done) (leads : d.leadsTo? path = some p) :
    w.disk.get? p = d.get? p ∧ ∀ access ∈ w.log, p ∉ access.places := by
  have unreached := separate.unreached inside among fresh leads
  refine ⟨accounted.shifts.same p unreached, ?_⟩
  intro access member touched
  obtain ⟨q, leads', clears⟩ := List.mem_flatMap.mp (accounted.noted member)
  refine unreached (List.mem_flatMap.mpr ⟨q, leads', ?_⟩)
  simp only [clearingOf, List.mem_cons, List.not_mem_nil, or_false] at clears
  rcases clears with rfl | rfl | rfl | rfl <;> simp_all [Access.places, or_comm]

theorem Accounted.wholeFiles (accounted : Accounted d findings done r w) (separate : d.Separate paths)
    (inside : path ∈ paths) (among : done ⊆ paths) :
    Disk.Kept d w.disk path ∨
      Disk.Rewritten d w.disk path (findings.filter (fun f => f.filePath == path)) := by
  by_cases before : path ∈ done
  · by_cases changed : path ∈ r.filesChanged
    · exact .inr (accounted.rewritten path changed)
    · exact .inl (accounted.kept path before changed)
  · exact .inl fun p leads => (accounted.untouched separate inside among before leads).1

def clearing (system : System) (d : Disk) (findings : List Finding) (bookmarks : List String) :
    Except Fault Report × Watched :=
  fromFilesOn system { disk := d } findings bookmarks

def listedOf (findings : List Finding) (bookmarks : List String) : List String :=
  (((findings.filter (fun f => !bookmarks.contains f.id)).map Finding.filePath).mergeSort
    (fun a b => decide (a ≤ b))).eraseReps

theorem listedRising {bookmarks : List String} : (listedOf findings bookmarks).Pairwise (· < ·) ∧
    ∀ path, path ∈ listedOf findings bookmarks ↔ ∃ f ∈ findings, f.id ∉ bookmarks ∧ f.filePath = path := by
  obtain ⟨rising, named⟩ := sortedOnce (fun path : String => path)
    ((findings.filter (fun f => !bookmarks.contains f.id)).map Finding.filePath) (fun _ _ _ _ same => same)
  refine ⟨rising, fun path => ?_⟩
  rw [listedOf, named, List.mem_map]
  constructor
  · rintro ⟨f, member, rfl⟩
    obtain ⟨inside, free⟩ := List.mem_filter.mp member
    exact ⟨f, inside, by simpa using free, rfl⟩
  · rintro ⟨f, inside, free, rfl⟩
    exact ⟨f, List.mem_filter.mpr ⟨inside, by simpa using free⟩, rfl⟩

theorem listedAmong {bookmarks : List String} : listedOf findings bookmarks ⊆ findings.map Finding.filePath := by
  intro path member
  obtain ⟨f, inside, -, rfl⟩ := (listedRising.2 path).mp member
  exact List.mem_map_of_mem inside

theorem Accounted.files {bookmarks : List String}
    (accounted : Accounted d (findings.filter (fun f => !bookmarks.contains f.id)) done r w)
    (separate : d.Separate (findings.map Finding.filePath)) (part : done ⊆ listedOf findings bookmarks) :
    (∀ f ∈ findings, Clear.freeIn findings bookmarks f.filePath = [] → ∀ p ∈ d.leadsTo? f.filePath,
      w.disk.get? p = d.get? p ∧ ∀ access ∈ w.log, p ∉ access.places) ∧
    ∀ f ∈ findings, Disk.Kept d w.disk f.filePath ∨
      Disk.Rewritten d w.disk f.filePath (Clear.freeIn findings bookmarks f.filePath) := by
  have inside : ∀ f ∈ findings, f.filePath ∈ findings.map Finding.filePath := fun f => List.mem_map_of_mem
  have among := List.Subset.trans part listedAmong
  refine ⟨?_, fun f member => accounted.wholeFiles separate (inside f member) among⟩
  intro f member marked p leads
  refine accounted.untouched separate (inside f member) among (fun before => ?_) leads
  obtain ⟨g, known, free, same⟩ := (listedRising.2 f.filePath).mp (part before)
  have grouped : g ∈ Clear.freeIn findings bookmarks f.filePath := by
    simpa [Clear.freeIn, same] using ⟨known, free⟩
  exact List.ne_nil_of_mem grouped marked

theorem Accounted.tells {bookmarks : List String}
    (accounted : Accounted d (findings.filter (fun f => !bookmarks.contains f.id)) (listedOf findings bookmarks) r w)
    (skipped : r.skippedBookmarked =
      findings.length - (findings.filter (fun f => !bookmarks.contains f.id)).length) :
    r.Tells d w.disk findings bookmarks := by
  obtain ⟨rising, listed⟩ := @listedRising findings bookmarks
  have parts := List.length_eq_countP_add_countP (fun f : Finding => bookmarks.contains f.id) (l := findings)
  simp only [List.countP_eq_length_filter, Bool.not_eq_true, Bool.decide_eq_false] at parts
  refine ⟨?_, rising.sublist accounted.changed, rising.sublist accounted.failed, accounted.apart,
    accounted.rewritten, ?_, by omega, ?_⟩
  · intro path member
    rcases List.mem_append.mp member with inside | inside
    · exact (listed path).mp (accounted.changed.subset inside)
    · exact (listed path).mp (accounted.failed.subset inside)
  · intro path failure
    exact accounted.kept path (accounted.failed.subset failure) (fun changed => accounted.apart path changed failure)
  · intro none
    have every : (findings.filter (fun f => !bookmarks.contains f.id)).filter
        (fun f => (listedOf findings bookmarks).contains f.filePath) =
          findings.filter (fun f => !bookmarks.contains f.id) := by
      apply List.filter_eq_self.mpr
      intro f member
      obtain ⟨inside, free⟩ := List.mem_filter.mp member
      simpa using (listed f.filePath).mpr ⟨f, inside, by simpa using free, rfl⟩
    have counted := accounted.counted none
    rw [every] at counted
    omega

theorem clearingRuns {bookmarks : List String} (system : System) (rooted : d.Rooted) :
    (∃ r w, clearing system d findings bookmarks = (.ok r, w) ∧
      Runs system (findings.filter (fun f => !bookmarks.contains f.id)) (listedOf findings bookmarks)
        { skippedBookmarked := findings.length - (findings.filter (fun f => !bookmarks.contains f.id)).length }
        { disk := d } r w ∧
      ∀ path ∈ listedOf findings bookmarks, (Written.ofText path).hasNull = false) ∨
    ∃ front path rest r w, listedOf findings bookmarks = front ++ path :: rest ∧
      (Written.ofText path).hasNull = true ∧
      clearing system d findings bookmarks = (.error (.invalid .nullByte), w) ∧
      Runs system (findings.filter (fun f => !bookmarks.contains f.id)) front
        { skippedBookmarked := findings.length - (findings.filter (fun f => !bookmarks.contains f.id)).length }
        { disk := d } r w :=
  clearEachRuns rooted

end

def barring (p : AbsPath) : System := fun _ access =>
  match access with
  | .replace _ target => if target = p then .refuse else .grant
  | _ => .grant

def folderOf (files : List (String × String)) : Disk where
  nodes := (⟨["w"]⟩, .dir) :: files.map (fun file => (⟨["w", file.1]⟩, .file file.2.toUTF8 1))
  here := ⟨["w"]⟩

def dumpOn (path : String) (line : Int) (content : String) : Finding :=
  { id := Finding.idOf path line 0, filePath := path, relativePath := path, lineNumber := line, column := 0, content
    context := content, kind := .dd, severity := .error }

def threeFiles : Disk := folderOf [("a.php", "dd(1);\necho 1;\n"), ("b.php", "dd(2);\n"), ("c.php", "dd(3);\n")]

def threeDumps : List Finding :=
  [dumpOn "/w/a.php" 1 "dd(1);", dumpOn "/w/b.php" 1 "dd(2);", dumpOn "/w/c.php" 1 "dd(3);"]

theorem threeFilesHoused : threeFiles.Housed := ⟨⟨by decide, by decide⟩, by decide +kernel⟩

end Watched
end DebugSweep
