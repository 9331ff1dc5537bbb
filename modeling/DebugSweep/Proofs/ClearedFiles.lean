import DebugSweep.Proofs.Frame
import DebugSweep.Proofs.Standing
import Mathlib.Data.List.Nodup

/-! Findings that stand in a file while files are cleared. Main statements: clearing only what
stands behind a finding leaves it at its place in its file, and clearing what stands apart from it
leaves its text in the file. -/
namespace DebugSweep.Clear
open Text Disk

def linesAt? (d : Disk) (p : AbsPath) : Option (List (List Char)) :=
  match d.get? p with
  | some (.file content _) => some (lines (decodeLossy content).toList)
  | _ => none

def LeadsTo (d : Disk) (p : AbsPath) (path : String) : Prop := (Written.ofText path).placeFrom d.here = p

instance (d : Disk) (p : AbsPath) (path : String) : Decidable (LeadsTo d p path) :=
  inferInstanceAs (Decidable (_ = _))

structure Placed (d : Disk) (p : AbsPath) (f : Finding) : Prop where
  settled : d.Settled p
  leads : LeadsTo d p f.filePath
  stands : ∃ parts, linesAt? d p = some parts ∧ Stands parts f

def Holds (d : Disk) (p : AbsPath) (text : List Char) : Prop :=
  ∃ line ∈ (linesAt? d p).getD [], text <:+: line

instance (d : Disk) (p : AbsPath) (text : List Char) : Decidable (Holds d p text) :=
  inferInstanceAs (Decidable (∃ line ∈ _, _))

theorem standsInfix {parts : List (List Char)} {f : Finding} (stands : Stands parts f) :
    ∃ line ∈ parts, f.content.toList <:+: line := by
  obtain ⟨above, before, after, below, rfl, _⟩ := stands
  exact ⟨before ++ f.content.toList ++ after, by simp, before, after, rfl⟩

theorem standsHolds {d : Disk} {p : AbsPath} {f : Finding} {parts : List (List Char)}
    (held : linesAt? d p = some parts) (stands : Stands parts f) : Holds d p f.content.toList := by
  rw [Holds, held]
  exact standsInfix stands

theorem Placed.holds {d : Disk} {p : AbsPath} {f : Finding} (placed : Placed d p f) :
    Holds d p f.content.toList := by
  obtain ⟨parts, held, stands⟩ := placed.stands
  exact standsHolds held stands

theorem decodeEncoded (text : String) : decode? text.toUTF8 = some text := by
  have valid : text.toUTF8.IsValidUTF8 := text.isValidUTF8
  unfold decode? String.fromUTF8?
  rw [dif_pos valid]
  rfl

theorem decodeLossyValid {content : ByteArray} {text : String} (valid : decode? content = some text) :
    decodeLossy content = text := by
  simp [decodeLossy, valid]

section
variable {d d' : Disk} {p : AbsPath}

theorem linesAtFile {content : ByteArray} {mtime : Int} (file : d.get? p = some (.file content mtime)) :
    linesAt? d p = some (lines (decodeLossy content).toList) := by
  simp [linesAt?, file]

theorem linesAtKept (keeps : Keeps p d d') : linesAt? d' p = linesAt? d p := by
  unfold linesAt?
  rw [keeps.same p (List.prefix_refl _)]

theorem linesAtClosed {parts : List (List Char)} (held : linesAt? d p = some parts) :
    ∀ line ∈ parts, '\n' ∉ line := by
  unfold linesAt? at held
  split at held
  · cases held
    exact fun line member => lineClosed member
  · contradiction

theorem linesAtRewritten {chars : List Char}
    (rewrites : Rewrites p (String.ofList chars).toUTF8 d d') : linesAt? d' p = some (lines chars) := by
  obtain ⟨mtime, file⟩ := rewrites.file
  rw [linesAtFile file, decodeLossyValid (decodeEncoded _), String.toList_ofList]

theorem Placed.kept {f : Finding} (placed : Placed d p f) (keeps : Keeps p d d') : Placed d' p f := by
  refine ⟨keeps.settled placed.settled, ?_, ?_⟩
  · rw [LeadsTo, keeps.here]
    exact placed.leads
  · rw [linesAtKept keeps]
    exact placed.stands

theorem clearedReadBack {parts : List (List Char)} {findings : List Finding} {f : Finding}
    (closed : ∀ line ∈ parts, '\n' ∉ line) (stands : Stands (fromLines parts findings).lines f) :
    lines (unlines (fromLines parts findings).lines) = (fromLines parts findings).lines := by
  have shown : (fromLines parts findings).lines ≠ [] := by
    obtain ⟨above, before, after, below, same, _⟩ := stands
    rw [same]
    simp
  rw [linesUnlines (fromLinesClosed findings closed), if_neg shown]

theorem clearFileLines {parts : List (List Char)} (settled : d.Settled p)
    (drafts : ∀ q : AbsPath, q.draft ≠ p) (held : linesAt? d p = some parts) (r : Report)
    (path : String) (findings : List Finding) :
    (clearFile .plain r d path findings).2.Settled p ∧ (clearFile .plain r d path findings).2.here = d.here ∧
    (linesAt? (clearFile .plain r d path findings).2 p = some parts ∨
      (LeadsTo d p path ∧ linesAt? (clearFile .plain r d path findings).2 p =
        some (lines (unlines (fromLines parts findings).lines)))) := by
  rcases clearFileCases settled drafts r path findings with
    keeps | ⟨leads, text, content, mtime, file, valid, rewrites⟩
  · exact ⟨keeps.settled settled, keeps.here, Or.inl ((linesAtKept keeps).trans held)⟩
  · have same : parts = lines text.toList := by
      rw [linesAtFile file, decodeLossyValid valid] at held
      exact (Option.some.inj held).symm
    refine ⟨rewrites.settled settled, rewrites.here, Or.inr ⟨leads, ?_⟩⟩
    rw [same]
    exact linesAtRewritten rewrites

theorem clearFilePlaced {f : Finding} (placed : Placed d p f) (drafts : ∀ q : AbsPath, q.draft ≠ p)
    (r : Report) {path : String} {findings : List Finding}
    (behind : LeadsTo d p path → ∀ g ∈ findings, Before f g) :
    Placed (clearFile .plain r d path findings).2 p f := by
  obtain ⟨parts, held, stands⟩ := placed.stands
  obtain ⟨settled, here, cleared⟩ := clearFileLines placed.settled drafts held r path findings
  refine ⟨settled, ?_, ?_⟩
  · rw [LeadsTo, here]
    exact placed.leads
  · rcases cleared with same | ⟨leads, changed⟩
    · exact ⟨parts, same, stands⟩
    · have stays := fromLinesBehind stands (behind leads)
      rw [clearedReadBack (linesAtClosed held) stays] at changed
      exact ⟨_, changed, stays⟩

theorem clearFileHolds {f : Finding} {parts : List (List Char)} (settled : d.Settled p)
    (drafts : ∀ q : AbsPath, q.draft ≠ p) (held : linesAt? d p = some parts) (stands : Stands parts f)
    (r : Report) (path : String) {findings : List Finding} (stand : ∀ g ∈ findings, Stands parts g)
    (apart : ∀ g ∈ findings, Apart f g) (others : findings.Pairwise Apart) :
    Holds (clearFile .plain r d path findings).2 p f.content.toList := by
  obtain ⟨_, _, same | ⟨_, changed⟩⟩ := clearFileLines settled drafts held r path findings
  · exact standsHolds same stands
  · obtain ⟨f', content, stays⟩ := fromLinesApart stands stand apart others
    rw [clearedReadBack (linesAtClosed held) stays] at changed
    exact content ▸ standsHolds changed stays

theorem clearEachSettled {findings : List Finding} {paths : List String} {r : Report}
    (settled : d.Settled p) (drafts : ∀ q : AbsPath, q.draft ≠ p) :
    (clearEach .plain findings r d paths).2.Settled p := by
  induction paths generalizing r d with
  | nil => exact settled
  | cons path rest ih =>
    unfold clearEach
    split
    · exact settled
    · apply ih
      rcases clearFileCases settled drafts r path (findings.filter (fun g => g.filePath == path)) with
        keeps | ⟨_, _, _, _, _, _, rewrites⟩
      · exact keeps.settled settled
      · exact rewrites.settled settled

theorem groupPath {findings : List Finding} {path : String} {g : Finding}
    (member : g ∈ findings.filter (fun g => g.filePath == path)) : g ∈ findings ∧ g.filePath = path := by
  simpa using member

theorem clearEachPlaced {f : Finding} {findings : List Finding} {paths : List String} {r : Report}
    (placed : Placed d p f) (drafts : ∀ q : AbsPath, q.draft ≠ p)
    (behind : ∀ g ∈ findings, LeadsTo d p g.filePath → Before f g) :
    Placed (clearEach .plain findings r d paths).2 p f := by
  induction paths generalizing r d with
  | nil => exact placed
  | cons path rest ih =>
    unfold clearEach
    split
    · exact placed
    · have first : Placed (clearFile .plain r d path (findings.filter (fun g => g.filePath == path))).2 p f := by
        apply clearFilePlaced placed drafts
        intro leads g member
        obtain ⟨inside, same⟩ := groupPath member
        exact behind g inside (by rwa [same])
      obtain ⟨parts, held, _⟩ := placed.stands
      have here := (clearFileLines placed.settled drafts held r path
        (findings.filter (fun g => g.filePath == path))).2.1
      apply ih first
      intro g member leads
      rw [LeadsTo, here] at leads
      exact behind g member leads

theorem clearEachOther {findings : List Finding} {paths : List String} {r : Report}
    {parts : List (List Char)} (settled : d.Settled p) (drafts : ∀ q : AbsPath, q.draft ≠ p)
    (held : linesAt? d p = some parts) (elsewhere : ∀ path ∈ paths, ¬ LeadsTo d p path) :
    linesAt? (clearEach .plain findings r d paths).2 p = some parts := by
  induction paths generalizing r d with
  | nil => exact held
  | cons path rest ih =>
    unfold clearEach
    split
    · exact held
    · obtain ⟨settled', here, same | ⟨leads, _⟩⟩ := clearFileLines settled drafts held r path
        (findings.filter (fun g => g.filePath == path))
      · apply ih settled' same
        intro other member leads
        rw [LeadsTo, here] at leads
        exact elsewhere other (List.mem_cons_of_mem _ member) leads
      · exact absurd leads (elsewhere path List.mem_cons_self)

theorem clearEachHolds {f : Finding} {findings : List Finding} {paths : List String} {r : Report}
    {parts : List (List Char)} (settled : d.Settled p) (drafts : ∀ q : AbsPath, q.draft ≠ p)
    (held : linesAt? d p = some parts) (stands : Stands parts f) (once : paths.Nodup)
    (spelled : ∀ path ∈ paths, LeadsTo d p path → path = f.filePath)
    (stand : ∀ g ∈ findings, g.filePath = f.filePath → Stands parts g ∧ Apart f g)
    (others : (findings.filter (fun g => g.filePath == f.filePath)).Pairwise Apart) :
    Holds (clearEach .plain findings r d paths).2 p f.content.toList := by
  induction paths generalizing r d with
  | nil => exact standsHolds held stands
  | cons path rest ih =>
    obtain ⟨fresh, once⟩ := List.nodup_cons.mp once
    unfold clearEach
    split
    · exact standsHolds held stands
    · have changes := clearFileLines settled drafts held r path
        (findings.filter (fun g => g.filePath == path))
      obtain ⟨settled', here, same | ⟨leads, changed⟩⟩ := changes
      · apply ih settled' same once
        intro other member leads
        rw [LeadsTo, here] at leads
        exact spelled other (List.mem_cons_of_mem _ member) leads
      · obtain rfl := spelled path List.mem_cons_self leads
        have group : ∀ g ∈ findings.filter (fun g => g.filePath == f.filePath),
            Stands parts g ∧ Apart f g := by
          intro g member
          obtain ⟨inside, same⟩ := groupPath member
          exact stand g inside same
        have elsewhere : ∀ other ∈ rest, ¬ LeadsTo d p other := fun other member leads =>
          fresh (spelled other (List.mem_cons_of_mem _ member) leads ▸ member)
        have kept := clearFileHolds settled drafts held stands r f.filePath
          (fun g member => (group g member).1) (fun g member => (group g member).2) others
        rw [Holds, changed] at kept
        rw [Holds, clearEachOther settled' drafts changed (by simpa only [LeadsTo, here] using elsewhere)]
        exact kept

end

def clearedAt (d : Disk) (p : AbsPath) (findings : List Finding) (bookmarks : List String) :
    List Finding :=
  findings.filter (fun g => !bookmarks.contains g.id && decide (LeadsTo d p g.filePath))

structure Orderly (parts : List (List Char)) (f : Finding) (cleared : List Finding) : Prop where
  spelled : ∀ g ∈ cleared, g.filePath = f.filePath
  stand : ∀ g ∈ cleared, Stands parts g
  apart : (f :: cleared).Pairwise Apart

section
variable {d : Disk} {p : AbsPath} {f : Finding} {findings : List Finding} {bookmarks : List String}

theorem clearedAtMember {g : Finding} (member : g ∈ findings.filter (fun g => !bookmarks.contains g.id))
    (leads : LeadsTo d p g.filePath) : g ∈ clearedAt d p findings bookmarks := by
  obtain ⟨inside, free⟩ := List.mem_filter.mp member
  rw [clearedAt, List.mem_filter, free, Bool.true_and]
  exact ⟨inside, by simpa using leads⟩

theorem fromFilesPlaced (placed : Placed d p f) (drafts : ∀ q : AbsPath, q.draft ≠ p)
    (behind : ∀ g ∈ clearedAt d p findings bookmarks, Before f g) :
    Placed (fromFiles d findings bookmarks).2 p f := by
  apply clearEachPlaced placed drafts
  intro g member leads
  exact behind g (clearedAtMember member leads)

theorem fromFilesHolds {parts : List (List Char)} (placed : Placed d p f)
    (drafts : ∀ q : AbsPath, q.draft ≠ p) (held : linesAt? d p = some parts)
    (orderly : Orderly parts f (clearedAt d p findings bookmarks)) :
    Holds (fromFiles d findings bookmarks).2 p f.content.toList := by
  obtain ⟨parts', held', stands⟩ := placed.stands
  obtain rfl : parts = parts' := Option.some.inj (held.symm.trans held')
  obtain ⟨first, others⟩ := List.pairwise_cons.mp orderly.apart
  obtain ⟨rising, named⟩ := sortedOnce id
    ((findings.filter (fun g => !bookmarks.contains g.id)).map Finding.filePath) (fun a _ b _ same => same)
  have once : (((findings.filter (fun g => !bookmarks.contains g.id)).map Finding.filePath).mergeSort
      (fun a b => decide (a ≤ b))).eraseReps.Nodup :=
    rising.imp (fun {a b} (order : a < b) (same : a = b) => String.lt_irrefl b (same ▸ order))
  apply clearEachHolds placed.settled drafts held stands once
  · intro path member leads
    obtain ⟨g, inside, rfl⟩ := List.mem_map.mp ((named path).mp member)
    exact orderly.spelled g (clearedAtMember inside leads)
  · intro g member same
    have here := clearedAtMember member (same ▸ placed.leads)
    exact ⟨orderly.stand g here, first g here⟩
  · refine others.sublist ?_
    rw [List.filter_filter]
    apply List.monotone_filter_right
    intro g both
    rw [Bool.and_eq_true, beq_iff_eq] at both
    rw [both.2, Bool.true_and, decide_eq_true_eq, both.1]
    exact placed.leads

end
end DebugSweep.Clear
