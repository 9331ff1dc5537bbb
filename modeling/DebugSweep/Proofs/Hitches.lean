import DebugSweep.Proofs.Stores

/-! Saves that fail. Main statement: wherever a save fails, the file is as it was, but what the store knows is
changed already, and the same update is not tried again. -/
namespace DebugSweep

inductive Hitch where
  | nowhere
  /-- So many of the names above the file are directories by then. -/
  | folders (made : Nat) (failure : OsFailure)
  | opening (failure : OsFailure)
  /-- So many bytes of the draft are written by then. -/
  | writing (length : Nat) (failure : OsFailure)
  | moving (failure : OsFailure)
  deriving DecidableEq, Repr

namespace Store
variable {d : Disk} {p : AbsPath} {texts : List String} {fault : Fault}

def stepsOn (p : AbsPath) (texts : List String) : Hitch → List (Disk → Except OsFailure Disk)
  | .nowhere => saveSteps p texts
  | .folders made failure => [fun d => d.makeDirs ⟨p.parent.names.take made⟩, fun _ => .error failure]
  | .opening failure => [fun d => d.makeDirs p.parent, fun _ => .error failure]
  | .writing length failure =>
      [fun d => d.makeDirs p.parent, fun d => d.write p.draft ((content texts).extract 0 length),
        fun _ => .error failure]
  | .moving failure =>
      [fun d => d.makeDirs p.parent, fun d => d.write p.draft (content texts), fun _ => .error failure]

def saveOn (hitch : Hitch) (d : Disk) (p : AbsPath) (texts : List String) : Except Fault Unit × Disk :=
  perform d (stepsOn p texts hitch)

def Spares (p : AbsPath) (step : Disk → Except OsFailure Disk) : Prop :=
  ∀ d d', step d = .ok d' → d'.get? p = d.get? p

-- A step that fails does nothing, so only the last one may touch the path.
theorem performFailed {front : List (Disk → Except OsFailure Disk)} {last : Disk → Except OsFailure Disk}
    (spares : ∀ step ∈ front, Spares p step) (failed : (perform d (front ++ [last])).1 = .error fault) :
    (perform d (front ++ [last])).2.get? p = d.get? p := by
  induction front generalizing d with
  | nil =>
    rw [List.nil_append, perform] at failed ⊢
    split at failed
    · contradiction
    · rfl
  | cons step front ih =>
    obtain ⟨first, later⟩ := List.forall_mem_cons.mp spares
    rw [List.cons_append, perform] at failed ⊢
    cases stepped : step d with
    | ok d' =>
      rw [stepped] at failed
      exact (ih later failed).trans (first d d' stepped)
    | error failure => rfl

theorem makeDirsSpares {q : AbsPath} (above : q.names <+: p.parent.names) : Spares p (fun d => d.makeDirs q) := by
  intro d d' made
  by_cases top : p.names = []
  · simp [Disk.get?, top]
  · refine Disk.makeDirsOther (fun along => ?_) made
    have sizes := (along.trans above).length_le
    have deep := List.length_pos_iff.mpr top
    rw [AbsPath.parent, List.length_dropLast] at sizes
    omega

theorem draftApart (p : AbsPath) : p ≠ p.draft := by
  by_cases top : p.names = []
  · intro same
    have names := congrArg AbsPath.names same
    simp [top, AbsPath.draft, AbsPath.child] at names
  · exact (Disk.draftOther top).symm

theorem writeSpares (content : ByteArray) : Spares p (fun d => d.write p.draft content) :=
  fun _ _ written => Disk.writeOthers written (draftApart p)

theorem stepsOnFront (hitch : Hitch) (p : AbsPath) (texts : List String) :
    ∃ front last, stepsOn p texts hitch = front ++ [last] ∧ ∀ step ∈ front, Spares p step := by
  have folders := makeDirsSpares (p := p) (List.prefix_refl p.parent.names)
  have drafted (content : ByteArray) :
      ∀ step ∈ [fun d : Disk => d.makeDirs p.parent, fun d => d.write p.draft content], Spares p step := by
    simpa using ⟨folders, writeSpares content⟩
  cases hitch with
  | nowhere => exact ⟨_, _, rfl, drafted _⟩
  | folders made failure =>
    exact ⟨[_], _, rfl, by simpa using makeDirsSpares (List.take_prefix made p.parent.names)⟩
  | opening failure => exact ⟨[_], _, rfl, by simpa using folders⟩
  | writing length failure => exact ⟨[_, _], _, rfl, drafted _⟩
  | moving failure => exact ⟨[_, _], _, rfl, drafted _⟩

theorem saveOnFailed {hitch : Hitch} (failed : (saveOn hitch d p texts).1 = .error fault) :
    (saveOn hitch d p texts).2.get? p = d.get? p := by
  obtain ⟨front, last, parts, spares⟩ := stepsOnFront hitch p texts
  rw [saveOn, parts] at failed ⊢
  exact performFailed spares failed

end Store

namespace Excludes
variable {known patterns : List String} {add : Bool}

theorem reviseAgain : revise (revise known patterns add) patterns add = revise known patterns add := by
  have first := revision known patterns add
  have second := revision (revise known patterns add) patterns add
  generalize revise (revise known patterns add) patterns add = twice at second
  generalize revise known patterns add = once at first second
  cases first with
  | added new order distinct fresh =>
    cases second with
    | added newer order' distinct' fresh' =>
      have none : newer = [] := by
        refine List.eq_nil_iff_forall_not_mem.mpr fun pattern member => ?_
        obtain ⟨given, unknown⟩ := (fresh' pattern).mp member
        obtain ⟨older, unseen⟩ := not_or.mp (mt List.mem_append.mpr unknown)
        exact unseen ((fresh pattern).mpr ⟨given, older⟩)
      rw [none, List.append_nil]
  | removed =>
    cases second with
    | removed => rw [List.filter_filter]; simp

theorem updateAgain (x : Excludes) (d : Disk) (patterns : List String) (add : Bool) :
    ({ x with patterns := revise x.patterns patterns add } : Excludes).update d patterns add =
      (.ok false, { x with patterns := revise x.patterns patterns add }, d) := by
  rcases updateWithCases Store.save { x with patterns := revise x.patterns patterns add } d patterns add with
    ⟨-, done⟩ | ⟨other, -⟩
  · exact done
  · exact absurd reviseAgain other

end Excludes

namespace Store

theorem mapFailed {α : Type} {saved : Except Fault Unit} {answer : Unit → α} {fault : Fault}
    (failed : saved.map answer = .error fault) : saved = .error fault := by
  cases saved with
  | ok done => contradiction
  | error fault =>
    cases failed
    rfl

theorem failedSaveRemembered {hitch : Hitch} {d : Disk} :
    (∀ {b : Bookmarks} {id : String} {fault : Fault}, (b.toggleWith (saveOn hitch) d id).1 = .error fault →
      (b.toggleWith (saveOn hitch) d id).2.2.get? b.path = d.get? b.path ∧
      ∀ other, other ∈ (b.toggleWith (saveOn hitch) d id).2.1.ids ↔ (other ∈ b.ids ↔ other ≠ id)) ∧
    (∀ {x : Excludes} {patterns : List String} {add : Bool} {fault : Fault},
      (x.updateWith (saveOn hitch) d patterns add).1 = .error fault →
      (x.updateWith (saveOn hitch) d patterns add).2.2.get? x.path = d.get? x.path ∧
      (x.updateWith (saveOn hitch) d patterns add).2.1.patterns ≠ x.patterns ∧
      Excludes.Revision x.patterns patterns add (x.updateWith (saveOn hitch) d patterns add).2.1.patterns ∧
      ∀ later, (x.updateWith (saveOn hitch) d patterns add).2.1.update later patterns add =
        (.ok false, (x.updateWith (saveOn hitch) d patterns add).2.1, later)) := by
  constructor
  · intro b id fault failed
    exact ⟨saveOnFailed (mapFailed failed), fun other => Bookmarks.flipMember⟩
  · intro x patterns add fault failed
    rcases Excludes.updateWithCases (saveOn hitch) x d patterns add with ⟨-, unchanged⟩ | ⟨other, saved⟩
    · rw [unchanged] at failed
      contradiction
    · rw [saved] at failed ⊢
      exact ⟨saveOnFailed (mapFailed failed), other, Excludes.revision _ _ _,
        fun later => Excludes.updateAgain x later patterns add⟩

def noSpace : OsFailure := ⟨28, "No space left on device", "/data/list.json.tmp", none⟩

def savedList : Disk := { nodes := [(⟨["data"]⟩, .dir), (listPath, .file (content ["a"]) 1)] }

def cutShort : Except Fault Bool × Bookmarks × Disk :=
  Bookmarks.toggleWith (saveOn (.writing 3 noSpace)) ⟨listPath, ["a"]⟩ savedList "a"

def leftBeside : Except Fault Bool × Excludes × Disk :=
  Excludes.updateWith (saveOn (.moving noSpace)) ⟨listPath, ["a"]⟩ savedList ["b"] true

theorem noSpaceRemembered :
    cutShort.1 = .error (.os noSpace) ∧ leftBeside.1 = .error (.os noSpace) ∧
    load cutShort.2.2 listPath "statement ids" = .ok ["a"] ∧ "a" ∉ cutShort.2.1.ids ∧
    load leftBeside.2.2 listPath "glob patterns" = .ok ["a"] ∧ leftBeside.2.1.patterns ≠ ["a"] := by
  have kept (what : String) : load savedList listPath what = .ok ["a"] := savedLoaded what rfl
  have cut : cutShort.1 = .error (.os noSpace) := rfl
  have left : leftBeside.1 = .error (.os noSpace) := rfl
  obtain ⟨file, ids⟩ := failedSaveRemembered.1 cut
  obtain ⟨file', patterns, -⟩ := failedSaveRemembered.2 left
  refine ⟨cut, left, (loadSame _ file).trans (kept _), ?_, (loadSame _ file').trans (kept _), patterns⟩
  exact fun member => absurd rfl (((ids "a").mp member).mp List.mem_cons_self)

def blockedDraft : Disk := { nodes := [(⟨["data"]⟩, .dir), (listPath.draft, .dir)] }

theorem failedSaveNotUndone :
    (Bookmarks.toggle ⟨listPath, []⟩ blockedDraft "x").1.isOk = false ∧
    (Bookmarks.toggle ⟨listPath, []⟩ blockedDraft "x").2.1.ids = ["x"] ∧
    (Excludes.update ⟨listPath, []⟩ blockedDraft ["d/**"] true).1.isOk = false ∧
    (Excludes.update ⟨listPath, []⟩ blockedDraft ["d/**"] true).2.1.patterns = ["d/**"] := by
  refine ⟨?_, ?_, ?_, ?_⟩ <;> decide +kernel

end Store
end DebugSweep
