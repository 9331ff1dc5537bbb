import DebugSweep.Proofs.Atomicity

/-! What clearing leaves of everything but the files that it reports as changed. Main statement: on a system
that lets drafts be removed, all of it stays exactly when no file stood where a draft was written. -/
namespace DebugSweep

def Disk.Unled (d : Disk) (paths : List String) (p : AbsPath) : Prop := ∀ path ∈ paths, d.leadsTo? path ≠ some p

namespace Watched
open Clear (Report)
open Text

structure Spares (system : System) (p : AbsPath) (w w' : Watched) : Prop where
  unwritten : .write p ∉ w'.log → w'.disk.get? p = w.disk.get? p
  free : system.Unlinks → w.disk.isLeaf p = false → w'.disk.get? p = w.disk.get? p
  swept : system.Unlinks → .write p ∈ w'.log → .write p ∈ w.log ∨ w'.disk.isLeaf p = false

section
variable {system : System} {findings : List Finding} {path : String} {paths : List String} {r r' : Report}
  {w w' w'' : Watched} {d : Disk} {p place : AbsPath}

theorem fileSame {e : Disk} (same : e.get? p = d.get? p) : e.isLeaf p = d.isLeaf p := by
  unfold Disk.isLeaf
  rw [same]

theorem Spares.idle (disk : w'.disk = w.disk) {reads : List AbsPath} (adds : Adds (reads.map .read) w w') :
    Spares system p w w' := by
  refine ⟨fun _ => by rw [disk], fun _ _ => by rw [disk], fun _ noted => ?_⟩
  obtain ⟨new, log, added⟩ := adds
  rw [log] at noted
  rcases List.mem_append.mp noted with old | fresh
  · exact .inl old
  · simpa using added fresh

theorem Spares.drafted (shifts : Disk.Shifts [place.draft, place] w.disk w'.disk)
    (swept : system.Unlinks → Disk.Swept place.draft w.disk w'.disk)
    (other : p = place → w'.disk.get? p = w.disk.get? p) (adds : Adds (clearingOf place) w w')
    (drafted : .write place.draft ∈ w'.log) : Spares system p w w' := by
  by_cases here : p = place.draft
  · subst here
    exact ⟨fun unwritten => absurd drafted unwritten, fun unlinks => (swept unlinks).same,
      fun unlinks _ => .inr (swept unlinks).gone⟩
  · have same : w'.disk.get? p = w.disk.get? p := by
      by_cases at_ : p = place
      · exact other at_
      · exact shifts.same p (by simp [here, at_])
    refine ⟨fun _ => same, fun _ _ => same, fun _ noted => ?_⟩
    obtain ⟨new, log, added⟩ := adds
    rw [log] at noted
    rcases List.mem_append.mp noted with old | fresh
    · exact .inl old
    · have clears := added fresh
      simp [clearingOf, here] at clears

theorem Spares.refl : Spares system p w w := ⟨fun _ => rfl, fun _ _ => rfl, fun _ noted => .inl noted⟩

theorem Spares.trans (first : Spares system p w w') (second : Spares system p w' w'') (longer : w'.log ⊆ w''.log) :
    Spares system p w w'' := by
  constructor
  · intro unwritten
    exact (second.unwritten unwritten).trans (first.unwritten (fun noted => unwritten (longer noted)))
  · intro unlinks none
    have same := first.free unlinks none
    exact (second.free unlinks ((fileSame same).trans none)).trans same
  · intro unlinks noted
    rcases second.swept unlinks noted with before | gone
    · rcases first.swept unlinks before with old | none
      · exact .inl old
      · exact .inr ((fileSame (second.free unlinks none)).trans none)
    · exact .inr gone

theorem Treated.spares (treated : Treated system path findings r w r' w') :
    ∃ changed, r'.filesChanged = r.filesChanged ++ changed ∧ (w.disk.Unled changed p → Spares system p w w') := by
  cases treated with
  | unread disk adds => exact ⟨[], by simp, fun _ => .idle disk adds⟩
  | @uncut _ place _ _ _ _ disk adds =>
    have reads : Adds ([place].map .read) w w' := adds
    exact ⟨[], by simp, fun _ => .idle disk reads⟩
  | @rewritten _ place _ leads _ swapped adds drafted =>
    refine ⟨[path], rfl, fun unled => ?_⟩
    cases swapped with
    | moved shifts swept =>
      refine .drafted shifts (fun _ => swept) (fun here => ?_) adds drafted
      exact absurd (here ▸ leads) (unled path List.mem_cons_self)
  | @refused _ place _ leads source swapped adds drafted =>
    refine ⟨[], by simp, fun _ => ?_⟩
    cases swapped with
    | left shifts swept =>
      refine .drafted (shifts.mono (by simp)) swept (fun here => ?_) adds drafted
      obtain ⟨-, content, mtime, file, -⟩ := Clear.readSourceFound source
      have deep : place.names ≠ [] := fun top => by simp [Disk.get?, top] at file
      exact shifts.same p (by simpa [here] using (Disk.draftOther deep).symm)

theorem Runs.spares (rooted : w.disk.Rooted) (runs : Runs system findings paths r w r' w') :
    w.log ⊆ w'.log ∧ ∃ changed, r'.filesChanged = r.filesChanged ++ changed ∧
      (w.disk.Unled changed p → Spares system p w w') := by
  induction runs with
  | done => exact ⟨List.Subset.refl _, [], by simp, fun _ => .refl⟩
  | @next path rest r₀ r₁ r₂ w₀ w₁ w₂ first later ih =>
    have shifts := first.shifts rooted
    obtain ⟨log, more, files, onward⟩ := ih shifts.rooted
    obtain ⟨changed, files', begun⟩ := first.spares (p := p)
    obtain ⟨new, noted, -⟩ := first.adds
    refine ⟨fun a before => log (noted ▸ List.mem_append_left _ before), changed ++ more, ?_, fun unled => ?_⟩
    · rw [files, files', List.append_assoc]
    · have spared := begun (fun other member => unled other (List.mem_append_left _ member))
      refine spared.trans (onward fun other member => ?_) log
      rw [shifts.leads]
      exact unled other (List.mem_append_right _ member)

theorem Runs.drafts {bookmarks : List String} (part : paths ⊆ listedOf findings bookmarks) (rooted : d.Rooted)
    {free : List Finding} (runs : Runs system free paths r { disk := d } r' w') (noted : .write p ∈ w'.log) :
    ∃ f ∈ findings, f.id ∉ bookmarks ∧ ∃ q ∈ d.leadsTo? f.filePath, p = q.draft := by
  have accesses := ((Reached.start rooted).run runs).noted noted
  obtain ⟨q, leads, clears⟩ := List.mem_flatMap.mp accesses
  obtain ⟨path, member, found⟩ := List.mem_filterMap.mp leads
  obtain ⟨f, inside, free, rfl⟩ := (listedRising.2 path).mp (part (by simpa using member))
  exact ⟨f, inside, free, q, found, by simpa [clearingOf] using clears⟩

theorem clearingElsewhere {bookmarks : List String} (system : System) (rooted : d.Rooted) :
    (∀ p, .write p ∈ (clearing system d findings bookmarks).2.log →
      ∃ f ∈ findings, f.id ∉ bookmarks ∧ ∃ q ∈ d.leadsTo? f.filePath, p = q.draft) ∧
    ∀ report, (clearing system d findings bookmarks).1 = .ok report →
      (∀ p, d.Unled report.filesChanged p → .write p ∉ (clearing system d findings bookmarks).2.log →
        (clearing system d findings bookmarks).2.disk.get? p = d.get? p) ∧
      (system.Unlinks →
        ((∀ p, d.Unled report.filesChanged p → (clearing system d findings bookmarks).2.disk.get? p = d.get? p) ↔
          ∀ p, d.Unled report.filesChanged p → .write p ∈ (clearing system d findings bookmarks).2.log →
            d.isLeaf p = false)) := by
  constructor
  · rcases clearingRuns system rooted with ⟨r, w, cleared, runs, -⟩ | ⟨front, path, rest, r, w, parts, -, cleared, runs⟩
    · rw [cleared]
      exact fun p => runs.drafts (List.Subset.refl _) rooted
    · rw [cleared]
      exact fun p => runs.drafts (by simp [parts]) rooted
  · intro report done
    rcases clearingRuns system rooted with ⟨r, w, cleared, runs, -⟩ | ⟨_, _, _, _, _, -, -, cleared, -⟩
    · rw [cleared] at done ⊢
      cases done
      have spares : ∀ p, d.Unled report.filesChanged p → Spares system p { disk := d } w := by
        intro p unled
        obtain ⟨-, changed, files, spared⟩ := runs.spares rooted (p := p)
        exact spared (by simpa [files] using unled)
      refine ⟨fun p unled => (spares p unled).unwritten, fun unlinks => ⟨?_, ?_⟩⟩
      · intro same p unled noted
        rcases (spares p unled).swept unlinks noted with before | gone
        · contradiction
        · exact (fileSame (same p unled)).symm.trans gone
      · intro none p unled
        by_cases noted : .write p ∈ w.log
        · exact (spares p unled).free unlinks (none p unled noted)
        · exact (spares p unled).unwritten noted
    · rw [cleared] at done
      contradiction

end

theorem threeFilesElsewhere :
    ∃ report, (clearing (barring ⟨["w", "b.php"]⟩) threeFiles threeDumps ["/w/c.php:1:0"]).1 = .ok report ∧
      ∀ p, threeFiles.Unled report.filesChanged p →
        (clearing (barring ⟨["w", "b.php"]⟩) threeFiles threeDumps ["/w/c.php:1:0"]).2.disk.get? p =
          threeFiles.get? p := by
  obtain ⟨drafts, told⟩ := @clearingElsewhere threeDumps threeFiles ["/w/c.php:1:0"] (barring ⟨["w", "b.php"]⟩)
    threeFilesHoused.rooted
  have beside : ∀ f ∈ threeDumps, ∀ q ∈ threeFiles.leadsTo? f.filePath, threeFiles.isLeaf q.draft = false := by
    decide +kernel
  have proper : ∀ f ∈ threeDumps, (Written.ofText f.filePath).hasNull = false := by decide +kernel
  rcases @clearingRuns threeDumps threeFiles ["/w/c.php:1:0"] (barring ⟨["w", "b.php"]⟩) threeFilesHoused.rooted with
    ⟨report, w, cleared, -⟩ | ⟨front, path, rest, r, w, parts, null, -⟩
  · have done := congrArg Prod.fst cleared
    refine ⟨report, done, ((told report done).2 (fun _ _ => rfl)).mpr fun p _ noted => ?_⟩
    obtain ⟨f, member, -, q, leads, rfl⟩ := drafts p noted
    exact beside f member q leads
  · have member : path ∈ listedOf threeDumps ["/w/c.php:1:0"] := by simp [parts]
    obtain ⟨f, inside, -, rfl⟩ := (listedRising.2 path).mp member
    rw [proper f inside] at null
    contradiction

def neighbours : Disk := folderOf [("a.php", "dd(1);\necho 1;\n"), ("a.php.tmp", "kept\n")]

-- The neighbour's name is that of the draft, which is moved away.
theorem neighbourLost :
    ∃ report, (clearing .willing neighbours [dumpOn "/w/a.php" 1 "dd(1);"] []).1 = .ok report ∧
      neighbours.Unled report.filesChanged ⟨["w", "a.php.tmp"]⟩ ∧
      neighbours.isLeaf ⟨["w", "a.php.tmp"]⟩ = true ∧
      (clearing .willing neighbours [dumpOn "/w/a.php" 1 "dd(1);"] []).2.disk.isLeaf ⟨["w", "a.php.tmp"]⟩ = false := by
  have housed : neighbours.Housed := ⟨⟨by decide, by decide⟩, by decide +kernel⟩
  obtain ⟨d', mtime, done, -, swept, -⟩ := @Clear.clearFileDone neighbours ⟨["w", "a.php"]⟩ "/w/a.php"
    "dd(1);\necho 1;\n" 1 [dumpOn "/w/a.php" 1 "dd(1);"] ⟨["echo 1;".toList, []], 1, 0⟩ housed.rooted
    (by decide +kernel) (by decide +kernel) rfl
    (by rw [Clear.fromLines, List.mergeSort_singleton]; decide +kernel) (by decide) {}
  have free : [dumpOn "/w/a.php" 1 "dd(1);"].filter (fun f => !([] : List String).contains f.id) =
      [dumpOn "/w/a.php" 1 "dd(1);"] := by decide +kernel
  have listed : (([dumpOn "/w/a.php" 1 "dd(1);"].map Finding.filePath).mergeSort
      (fun a b => decide (a ≤ b))).eraseReps = ["/w/a.php"] := Clear.onePath (by simp) (by simp [dumpOn])
  have group : [dumpOn "/w/a.php" 1 "dd(1);"].filter (fun f => f.filePath == "/w/a.php") =
      [dumpOn "/w/a.php" 1 "dd(1);"] := by decide +kernel
  have proper : (Written.ofText "/w/a.php").hasNull = false := by decide +kernel
  have run : Clear.fromFiles neighbours [dumpOn "/w/a.php" 1 "dd(1);"] [] =
      (.ok { cleared := 1, filesChanged := ["/w/a.php"] }, d') := by
    simp only [Clear.fromFiles, Clear.fromFilesBy, free, listed, Clear.clearEach, proper, group, Nat.sub_self]
    rw [done]
    rfl
  have same := fromFilesWilling { disk := neighbours } [dumpOn "/w/a.php" 1 "dd(1);"] []
  rw [run] at same
  obtain ⟨outcome, disk⟩ := Prod.mk.inj same
  refine ⟨_, outcome.symm, ?_, by decide +kernel, (congrArg (Disk.isLeaf · _) disk).symm.trans swept.gone⟩
  intro path member
  obtain rfl := List.mem_singleton.mp member
  decide +kernel

end Watched
end DebugSweep
