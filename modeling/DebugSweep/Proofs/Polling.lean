import DebugSweep.Proofs.Ways
import DebugSweep.Watch.Loop

/-! Polls that nothing interrupts. Main statement: if the files stay as they are while the poller goes
through them, it ends with what a look at all of them at once sees, and it asks for a scan when a poll made
at once would. -/
namespace DebugSweep.Watch

namespace Snapshot
variable {seen : Snapshot} {entry : String × Nat × Int}

theorem noteNew (absent : entry.1 ∉ seen.map Prod.fst) : seen.note entry = seen ++ [entry] := by
  unfold note
  rw [if_neg]
  simpa [List.any_eq_true] using absent

theorem noteAgain (absent : entry.1 ∉ seen.map Prod.fst) : (seen ++ [entry]).note entry = seen ++ [entry] := by
  unfold note
  rw [if_pos (by simp), List.map_append]
  congr 1
  · refine (List.map_congr_left fun old member => ?_).trans (List.map_id seen)
    have other : old.1 ≠ entry.1 := fun same => absent (same ▸ List.mem_map_of_mem member)
    simp [other]
  · simp

def noteAt (mark : AbsPath → Option (String × Nat × Int)) (seen : Snapshot) (p : AbsPath) : Snapshot :=
  (mark p).elim seen seen.note

section
variable {mark : AbsPath → Option (String × Nat × Int)} {p : AbsPath}

theorem noteAtNew (keyed : ∀ q entry, mark q = some entry → entry.1 = q.text)
    (absent : p.text ∉ seen.map Prod.fst) : noteAt mark seen p = seen ++ (mark p).toList := by
  unfold noteAt
  cases known : mark p with
  | none => simp
  | some entry => exact noteNew (keyed p entry known ▸ absent)

theorem noteAtAgain (keyed : ∀ q entry, mark q = some entry → entry.1 = q.text)
    (absent : p.text ∉ seen.map Prod.fst) : noteAt mark (noteAt mark seen p) p = noteAt mark seen p := by
  rw [noteAtNew keyed absent]
  unfold noteAt
  cases known : mark p with
  | none => rfl
  | some entry => exact noteAgain (keyed p entry known ▸ absent)

-- In order of their paths, places that come twice come one after the other.
theorem notedOnce {rest : List AbsPath} (keyed : ∀ q entry, mark q = some entry → entry.1 = q.text)
    (sorted : (p :: rest).Pairwise (fun a b => a.notAfter b = true)) (proper : ∀ q ∈ p :: rest, q.Proper)
    (absent : ∀ q ∈ p :: rest, q.text ∉ seen.map Prod.fst) :
    rest.foldl (noteAt mark) (noteAt mark seen p) =
      seen ++ (List.eraseRepsBy.loop (· == ·) p rest []).filterMap mark := by
  have new := noteAtNew keyed (absent p List.mem_cons_self)
  induction rest generalizing p seen with
  | nil =>
    rw [List.foldl_nil, new]
    cases known : mark p <;> simp [List.eraseRepsBy.loop, known]
  | cons q rest ih =>
    obtain ⟨before, later⟩ := List.pairwise_cons.mp sorted
    rw [List.foldl_cons, List.eraseRepsBy.loop]
    by_cases same : p = q
    · subst same
      rw [beq_self_eq_true, noteAtAgain keyed (absent p List.mem_cons_self)]
      exact ih later (fun r member => proper r (List.mem_cons_of_mem _ member))
        (fun r member => absent r (List.mem_cons_of_mem _ member)) new
    · -- What comes later is after the next place, so it is not this one again.
      have other : ∀ r ∈ q :: rest, r ≠ p := by
        rintro r member rfl
        refine same ((proper r List.mem_cons_self).textInjective (proper q (by simp)) ?_)
        have after : q.notAfter r = true := by
          rcases List.mem_cons.mp member with rfl | inside
          · exact absurd rfl same
          · exact (List.pairwise_cons.mp later).1 r inside
        have ahead := before q List.mem_cons_self
        simp only [AbsPath.notAfter, decide_eq_true_eq] at ahead after
        exact String.le_antisymm ahead after
      have absent' : ∀ r ∈ q :: rest, r.text ∉ (noteAt mark seen p).map Prod.fst := by
        intro r member known
        rw [new, List.map_append] at known
        rcases List.mem_append.mp known with old | here
        · exact absent r (List.mem_cons_of_mem _ member) old
        · obtain ⟨entry, inside, text⟩ := List.mem_map.mp here
          have marked : mark p = some entry := by simpa using inside
          refine other r member ((proper r (List.mem_cons_of_mem _ member)).textInjective
            (proper p List.mem_cons_self) ?_)
          rw [← text, keyed p entry marked]
      rw [beq_eq_false_iff_ne.mpr same]
      dsimp only
      rw [repsDone q rest [p], ih later (fun r member => proper r (List.mem_cons_of_mem _ member)) absent'
        (noteAtNew keyed (absent' q List.mem_cons_self)), new]
      cases known : mark p <;> simp [known]

end
end Snapshot

namespace Loop

def Polls (l l' : Loop) : Prop := ∃ count, l.run (List.replicate count .watch) = l'

section
variable {l l' l'' : Loop}

theorem Polls.step (later : Polls l.watch l') : Polls l l' := by
  obtain ⟨count, ran⟩ := later
  exact ⟨count + 1, ran⟩

theorem Polls.trans (first : Polls l l') (second : Polls l' l'') : Polls l l'' := by
  obtain ⟨count, rfl⟩ := first
  obtain ⟨more, rfl⟩ := second
  refine ⟨count + more, ?_⟩
  rw [List.replicate_add, run, List.foldl_append]
  rfl

theorem measurePost (post : Post) (files : List AbsPath) (seen : Snapshot) :
    ({ l with post } : Loop).measure files seen = l.measure files seen := by
  cases files <;> rfl

theorem surveyPost (post : Post) (w : Walk) : ({ l with post } : Loop).survey w = l.survey w := by
  unfold survey
  split
  · rfl
  · exact measurePost post _ _

def mark (l : Loop) (p : AbsPath) : Option (String × Nat × Int) :=
  (l.source.stat p).toOption.map (fun stat => (p.text, stat.size, stat.mtime))

theorem pollsMeasure (files : List AbsPath) (seen : Snapshot) :
    Polls (l.measure files seen) (l.conclude (files.foldl (Snapshot.noteAt l.mark) seen)) := by
  induction files generalizing seen with
  | nil => exact ⟨0, rfl⟩
  | cons p rest ih =>
    refine Polls.step ?_
    have noted : ({ l with post := .sizing (p :: rest) seen } : Loop).watch =
        l.measure rest (Snapshot.noteAt l.mark seen p) := by
      have source : ({ l with post := .sizing (p :: rest) seen } : Loop).source = l.source := rfl
      unfold watch Snapshot.noteAt mark
      dsimp only
      rw [source]
      cases l.source.stat p with
      | ok stat => exact measurePost _ _ _
      | error fault => exact measurePost _ _ _
    rw [List.foldl_cons]
    exact noted ▸ ih _

theorem pollsWalk {w w' : Walk} {fuel : Nat} (walked : Walk.run l.selector l.source fuel w = .ok w') :
    Polls (l.survey w) (l.survey w') := by
  induction fuel generalizing w with
  | zero =>
    cases walked
    exact ⟨0, rfl⟩
  | succ fuel ih =>
    unfold Walk.run at walked
    cases next : w.stack with
    | nil =>
      rw [next] at walked
      cases walked
      exact ⟨0, rfl⟩
    | cons dir stack =>
      rw [next] at walked
      dsimp only at walked
      cases stepped : w.step l.selector l.source with
      | error fault =>
        rw [stepped] at walked
        contradiction
      | ok w'' =>
        rw [stepped] at walked
        refine Polls.step ?_
        have visited : (l.survey w).watch = l.survey w'' := by
          have waits : l.survey w = { l with post := .walking w } := by
            unfold survey
            rw [next]
          rw [waits]
          have step : w.step ({ l with post := .walking w } : Loop).selector
              ({ l with post := .walking w } : Loop).source = .ok w'' := stepped
          unfold watch
          dsimp only
          rw [step]
          exact surveyPost _ _
        rw [visited]
        exact ih walked

theorem notedListed {files : List AbsPath} (sorted : files.Pairwise (fun a b => a.notAfter b = true))
    (proper : ∀ p ∈ files, p.Proper) (wanted : AbsPath → Bool) :
    (files.filter wanted).foldl (Snapshot.noteAt l.mark) [] = (files.eraseReps.filter wanted).filterMap l.mark := by
  have chosen : ∀ seen : Snapshot, (files.filter wanted).foldl (Snapshot.noteAt l.mark) seen =
      files.foldl (Snapshot.noteAt (fun p => if wanted p then l.mark p else none)) seen := by
    intro seen
    rw [List.foldl_filter]
    congr 1
    funext seen p
    unfold Snapshot.noteAt
    split <;> rename_i taken <;> simp [taken]
  have keyed : ∀ q entry, (if wanted q then l.mark q else none) = some entry → entry.1 = q.text := by
    intro q entry known
    split at known
    · obtain ⟨stat, -, rfl⟩ := Option.map_eq_some_iff.mp known
      rfl
    · contradiction
  rw [chosen, List.filterMap_filter]
  cases files with
  | nil => rfl
  | cons p rest => exact Snapshot.notedOnce keyed sorted proper (fun q _ => List.not_mem_nil)

def resting (l : Loop) : State :=
  { engine := l.flight.engine
    source := l.source
    pending := l.pending
    snapshot := l.snapshot }

theorem concludePolls {seen : Snapshot} (standing : l.post = .resting) (looked : l.resting.look = .ok seen) :
    l.conclude seen = { l with snapshot := l.resting.poll.2.snapshot, pending := l.resting.poll.2.pending } := by
  obtain ⟨flight, disk, post, pending, snapshot⟩ := l
  obtain rfl : post = .resting := standing
  unfold State.poll
  rw [looked]
  unfold conclude
  cases snapshot with
  | none => simp [resting]
  | some before =>
    by_cases same : before = seen
    · simp [resting, same]
    · cases busy : flight.engine.scanning <;> cases pending <;> simp [resting, State.trigger, same, busy]

theorem lookNoted (tree : l.disk.Tree) :
    ∃ w fuel, Walk.run l.selector l.source fuel (Walk.start l.selector) = .ok w ∧ w.stack = [] ∧
      l.resting.look = .ok (((w.found.mergeSort AbsPath.notAfter).filter
        (fun p => l.flight.engine.eligible ⟨[]⟩ p.text)).foldl (Snapshot.noteAt l.mark) []) := by
  have system : Faults.SystemOnly {} := by simp [Faults.SystemOnly]
  obtain ⟨w, ran, done, -⟩ := @Walk.runKeeps l.source _ _ l.selector tree system (Walk.startLoad l.selector l.source)
  obtain ⟨w', walked, members, -⟩ := @Walk.collectOnce l.source l.selector tree system
  obtain rfl : w' = { w with found := w.found.mergeSort AbsPath.notAfter } := by
    unfold Walk.collect at walked
    rw [ran] at walked
    exact (Except.ok.inj walked).symm
  have files : ∀ p ∈ w.found.mergeSort AbsPath.notAfter, p.Proper ∧
      (l.disk.fileStat? p).map (fun stat => (p.text, stat.size, stat.mtime)) = l.mark p := by
    intro p member
    obtain ⟨root, -, reaches⟩ := (members p).mp member
    obtain ⟨proper, content, mtime, file⟩ := reaches.isFile tree
    have held : l.disk.get? p = some (.file content mtime) := file
    exact ⟨proper, by simp [mark, Source.statCalm rfl file, Disk.fileStat?, held, Except.toOption]⟩
  refine ⟨w, _, ran, done, ?_⟩
  rw [notedListed (Walk.sortedFound w.found) (fun p member => (files p member).1),
    @State.lookListed l.resting _ tree rfl walked members]
  congr 1
  refine List.filterMap_congr fun p member => ?_
  exact (files p ((repsMember _).mp (List.mem_filter.mp member).1)).2

theorem pollAlone (standing : l.post = .resting) (tree : l.disk.Tree) :
    Polls l { l with snapshot := l.resting.poll.2.snapshot, pending := l.resting.poll.2.pending } := by
  obtain ⟨w, fuel, ran, done, looked⟩ := lookNoted tree
  have started : l.watch = l.survey (Walk.start l.selector) := by
    unfold watch
    rw [standing]
  refine Polls.step ?_
  rw [started, ← concludePolls standing looked]
  refine (pollsWalk ran).trans ?_
  unfold survey
  rw [done]
  exact pollsMeasure _ []

end
end Loop
end DebugSweep.Watch
