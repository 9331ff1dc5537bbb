import DebugSweep.Proofs.Upkeep

/-! Bookmarks and exclude patterns over runs of calls. Main statement: as long as no save fails, what a store
knows is what one that is newly opened on its file would know; each call changes what it is to change and nothing
else. -/
namespace DebugSweep

namespace Settings

theorem addNewBehind (known items : List String) : ∃ new, addNew known items = known ++ new ∧ new.Sublist items ∧
    new.Nodup ∧ ∀ item, item ∈ new ↔ item ∈ items ∧ item ∉ known := by
  unfold addNew
  induction items generalizing known with
  | nil => exact ⟨[], by simp⟩
  | cons next items ih =>
    rw [List.foldl_cons]
    split
    · rename_i old
      have listed : next ∈ known := List.contains_iff_mem.mp old
      obtain ⟨new, whole, order, once, members⟩ := ih known
      refine ⟨new, whole, order.cons next, once, fun item => ?_⟩
      rw [members, List.mem_cons]
      constructor
      · rintro ⟨later, fresh⟩
        exact ⟨.inr later, fresh⟩
      · rintro ⟨rfl | later, fresh⟩
        · exact absurd listed fresh
        · exact ⟨later, fresh⟩
    · rename_i fresh
      have unlisted : next ∉ known := fun listed => fresh (List.contains_iff_mem.mpr listed)
      obtain ⟨new, whole, order, once, members⟩ := ih (known ++ [next])
      refine ⟨next :: new, by rw [whole, List.append_assoc]; rfl, order.cons_cons next, ?_, fun item => ?_⟩
      · refine List.nodup_cons.mpr ⟨fun member => ?_, once⟩
        exact ((members next).mp member).2 (by simp)
      · rw [List.mem_cons, members, List.mem_cons, List.mem_append, List.mem_singleton]
        by_cases same : item = next
        · subst same
          simp [unlisted]
        · simp [same]

end Settings

namespace Store
variable {d d' : Disk} {p : AbsPath} {texts : List String}

theorem performDone {step : Disk → Except OsFailure Disk} {rest : List (Disk → Except OsFailure Disk)}
    (done : (perform d (step :: rest)).1 = .ok ()) :
    ∃ d', step d = .ok d' ∧ perform d (step :: rest) = perform d' rest := by
  rw [perform] at done ⊢
  cases stepped : step d with
  | ok d' => exact ⟨d', rfl, rfl⟩
  | error failure =>
    rw [stepped] at done
    contradiction

theorem savedKept (saved : (save d p texts).1 = .ok ()) (what : String) :
    load (save d p texts).2 p what = .ok texts := by
  obtain ⟨made, -, first⟩ := performDone saved
  rw [save, saveSteps, first] at saved ⊢
  obtain ⟨wrote, written, second⟩ := performDone saved
  rw [second] at saved ⊢
  obtain ⟨moved, replaced, third⟩ := performDone saved
  rw [third]
  exact savedLoaded what (Disk.replacedFile (Disk.writtenFile written).2 replaced)

theorem mapWorks {α : Type} {saved : Except Fault Unit} {answer : Unit → α}
    (works : (saved.map answer).isOk = true) : saved = .ok () := by
  cases saved with
  | ok done => rfl
  | error fault => contradiction

theorem mapAnswer {α : Type} {saved : Except Fault Unit} {answer : Unit → α} {given : α}
    (answered : saved.map answer = .ok given) : given = answer () := by
  cases saved with
  | ok done =>
    cases answered
    rfl
  | error fault => contradiction

abbrev Saving := Disk → AbsPath → List String → Except Fault Unit × Disk

/-- Runs of calls that all succeed, while others may change any file but the one at the path. -/
inductive Run {store call : Type} (answer : store → Disk → call → Except Fault Bool × store × Disk) (path : AbsPath)
    (start : store × Disk) : List call → store × Disk → Prop
  | start : Run answer path start [] start
  | call {calls : List call} {s : store} {d : Disk} (run : Run answer path start calls (s, d)) (next : call)
      (works : (answer s d next).1.isOk = true) : Run answer path start (calls ++ [next]) (answer s d next).2
  | elsewhere {calls : List call} {s : store} {d d' : Disk} (run : Run answer path start calls (s, d))
      (same : d'.get? path = d.get? path) : Run answer path start calls (s, d')

section
variable {store call : Type} {answer : store → Disk → call → Except Fault Bool × store × Disk} {path : AbsPath}
  {start last : store × Disk} {calls : List call}

theorem Run.keeps {invariant : store × Disk → Prop} (run : Run answer path start calls last) (first : invariant start)
    (step : ∀ s d next, invariant (s, d) → (answer s d next).1.isOk = true → invariant (answer s d next).2)
    (others : ∀ s d d', invariant (s, d) → d'.get? path = d.get? path → invariant (s, d')) : invariant last := by
  induction run with
  | start => exact first
  | call run next works ih => exact step _ _ next ih works
  | elsewhere run same ih => exact others _ _ _ ih same

theorem Run.known {known : Type} (view : store → known) (effect : known → call → known)
    (run : Run answer path start calls last) (step : ∀ s d next, view (answer s d next).2.1 = effect (view s) next) :
    view last.1 = calls.foldl effect (view start.1) := by
  induction run with
  | start => rfl
  | call run next works ih => rw [step, ih, List.foldl_append, List.foldl_cons, List.foldl_nil]
  | elsewhere run same ih => exact ih

end
end Store

namespace Bookmarks
variable {b b' : Bookmarks} {d d' : Disk} {path : AbsPath} {ids : List String} {id other : String}

def flip (ids : List String) (id : String) : List String :=
  if ids.contains id then ids.filter (· != id) else ids ++ [id]

theorem flipMember : other ∈ flip ids id ↔ (other ∈ ids ↔ other ≠ id) := by
  unfold flip
  by_cases known : id ∈ ids <;> by_cases same : other = id <;> simp_all

theorem flipOnce (once : ids.Nodup) : (flip ids id).Nodup := by
  unfold flip
  split
  · exact once.filter _
  · rename_i unknown
    have fresh : id ∉ ids := fun known => unknown (List.contains_iff_mem.mpr known)
    simpa using List.Nodup.concat fresh once

theorem flipEach {calls : List String} : id ∈ calls.foldl flip ids ↔ (id ∈ ids ↔ calls.count id % 2 = 0) := by
  induction calls generalizing ids with
  | nil => simp
  | cons next calls ih =>
    rw [List.foldl_cons, ih, flipMember, List.count_cons]
    by_cases same : next = id
    · subst same
      have parity : (calls.count next + 1) % 2 = 0 ↔ ¬ calls.count next % 2 = 0 := by omega
      simp only [ne_eq, not_true_eq_false, iff_false, BEq.rfl, if_true, parity]
      tauto
    · simp [same, Ne.symm same]

theorem distinctOnce : ∀ texts : List String, texts.eraseDups.Nodup
  | [] => by simp
  | text :: texts => by
    rw [List.eraseDups_cons, List.nodup_cons, List.mem_eraseDups]
    exact ⟨by simp, distinctOnce _⟩
termination_by texts => texts.length
decreasing_by exact Nat.lt_succ_of_le (List.length_filter_le _ _)

def toggleWith (save : Store.Saving) (b : Bookmarks) (d : Disk) (id : String) :
    Except Fault Bool × Bookmarks × Disk :=
  let b' := { b with ids := flip b.ids id }
  let (saved, d') := save d b.path b'.sorted
  (saved.map (fun _ => !b.contains id), b', d')

theorem toggleSaves (b : Bookmarks) (d : Disk) (id : String) : b.toggle d id = b.toggleWith Store.save d id := rfl

theorem toggled (b : Bookmarks) (d : Disk) (id : String) :
    (b.toggle d id).2.1 = { b with ids := flip b.ids id } := rfl

theorem toggleTells {set : Bool} (answered : (b.toggle d id).1 = .ok set) :
    set = true ↔ id ∈ (b.toggle d id).2.1.ids := by
  obtain rfl : set = !b.contains id := Store.mapAnswer answered
  rw [toggled, flipMember]
  simp [contains]

structure Kept (path : AbsPath) (s : Bookmarks × Disk) : Prop where
  place : s.1.path = path
  once : s.1.ids.Nodup
  file : ∃ texts, Store.load s.2 path "statement ids" = .ok texts ∧ ∀ id, id ∈ texts ↔ id ∈ s.1.ids

theorem loadedKept (loaded : load d path = .ok b) : Kept path (b, d) := by
  obtain ⟨texts, read, made⟩ := bindOkIff.mp loaded
  cases made
  exact ⟨rfl, distinctOnce texts, texts, read, fun id => List.mem_eraseDups.symm⟩

theorem Kept.reopened (kept : Kept path (b, d)) : ∃ again, load d path = .ok again ∧ again.ids.Perm b.ids := by
  obtain ⟨texts, read, same⟩ := kept.file
  refine ⟨⟨path, texts.eraseDups⟩, by simp only [load, read]; rfl, ?_⟩
  refine (List.perm_ext_iff_of_nodup (distinctOnce texts) kept.once).mpr fun id => ?_
  exact List.mem_eraseDups.trans (same id)

theorem Kept.elsewhere (kept : Kept path (b, d)) (same : d'.get? path = d.get? path) : Kept path (b, d') := by
  obtain ⟨texts, read, members⟩ := kept.file
  exact ⟨kept.place, kept.once, texts, (Store.loadSame _ same).trans read, members⟩

theorem Kept.toggle (kept : Kept path (b, d)) (id : String) (works : (b.toggle d id).1.isOk = true) :
    Kept path (b.toggle d id).2 := by
  have saved : (Store.save d b.path ({ b with ids := flip b.ids id } : Bookmarks).sorted).1 = .ok () :=
    Store.mapWorks works
  have place : b.path = path := kept.place
  refine ⟨place, flipOnce kept.once, ({ b with ids := flip b.ids id } : Bookmarks).sorted, ?_, fun other => ?_⟩
  · rw [← place]
    exact Store.savedKept saved _
  · exact List.mem_mergeSort

theorem Kept.run {calls : List String} (kept : Kept path (b, d))
    (run : Store.Run Bookmarks.toggle path (b, d) calls (b', d')) : Kept path (b', d') :=
  run.keeps kept (fun _ _ id known works => known.toggle id works) (fun _ _ _ known same => known.elsewhere same)

end Bookmarks

namespace Excludes
variable {x x' : Excludes} {d d' : Disk} {path : AbsPath} {patterns known : List String} {add : Bool}

def revise (known patterns : List String) (add : Bool) : List String :=
  if add then Settings.addNew known patterns else removed known patterns

/-- What becomes of patterns: new ones are put behind them, each once, or all that are the same as one of the
given are taken away; the others stay in their order. -/
inductive Revision (known patterns : List String) : Bool → List String → Prop
  | added (new : List String) (order : new.Sublist patterns) (once : new.Nodup)
      (fresh : ∀ pattern, pattern ∈ new ↔ pattern ∈ patterns ∧ pattern ∉ known) :
      Revision known patterns true (known ++ new)
  | removed : Revision known patterns false (known.filter (· ∉ patterns))

theorem revision (known patterns : List String) (add : Bool) :
    Revision known patterns add (revise known patterns add) := by
  cases add with
  | true =>
    obtain ⟨new, whole, order, once, fresh⟩ := Settings.addNewBehind known patterns
    rw [revise, if_pos rfl, whole]
    exact .added new order once fresh
  | false =>
    have same : revise known patterns false = known.filter (· ∉ patterns) := by simp [revise, Excludes.removed]
    rw [same]
    exact .removed

def call (x : Excludes) (d : Disk) (asked : List String × Bool) : Except Fault Bool × Excludes × Disk :=
  x.update d asked.1 asked.2

def updateWith (save : Store.Saving) (x : Excludes) (d : Disk) (patterns : List String) (add : Bool) :
    Except Fault Bool × Excludes × Disk :=
  if revise x.patterns patterns add == x.patterns then (.ok false, x, d)
  else
    let (saved, d') := save d x.path (revise x.patterns patterns add)
    (saved.map (fun _ => true), { x with patterns := revise x.patterns patterns add }, d')

theorem updateWithCases (save : Store.Saving) (x : Excludes) (d : Disk) (patterns : List String) (add : Bool) :
    (revise x.patterns patterns add = x.patterns ∧ x.updateWith save d patterns add = (.ok false, x, d)) ∨
    (revise x.patterns patterns add ≠ x.patterns ∧ x.updateWith save d patterns add =
      ((save d x.path (revise x.patterns patterns add)).1.map (fun _ => true),
        { x with patterns := revise x.patterns patterns add },
        (save d x.path (revise x.patterns patterns add)).2)) := by
  unfold updateWith
  by_cases same : revise x.patterns patterns add = x.patterns
  · exact .inl ⟨same, if_pos (by simpa using same)⟩
  · exact .inr ⟨same, if_neg (by simpa using same)⟩

theorem updateSaves (x : Excludes) (d : Disk) (patterns : List String) (add : Bool) :
    x.update d patterns add = x.updateWith Store.save d patterns add := rfl

theorem updated (x : Excludes) (d : Disk) (patterns : List String) (add : Bool) :
    (x.update d patterns add).2.1 = { x with patterns := revise x.patterns patterns add } := by
  rw [updateSaves]
  rcases updateWithCases Store.save x d patterns add with ⟨same, done⟩ | ⟨-, done⟩
  · rw [done, same]
  · rw [done]

structure Kept (path : AbsPath) (s : Excludes × Disk) : Prop where
  place : s.1.path = path
  file : Store.load s.2 path "glob patterns" = .ok s.1.patterns

theorem loadedKept : load d path = .ok x ↔ Kept path (x, d) := by
  constructor
  · intro loaded
    obtain ⟨patterns, read, made⟩ := bindOkIff.mp loaded
    cases made
    exact ⟨rfl, read⟩
  · rintro ⟨rfl, file⟩
    dsimp only at file
    simp only [load, file]
    rfl

theorem Kept.update (kept : Kept path (x, d)) (patterns : List String) (add : Bool)
    (works : (x.update d patterns add).1.isOk = true) : Kept path (x.update d patterns add).2 := by
  rw [updateSaves] at works ⊢
  rcases updateWithCases Store.save x d patterns add with ⟨-, done⟩ | ⟨-, done⟩
  · rw [done]
    exact kept
  · rw [done] at works ⊢
    have place : x.path = path := kept.place
    exact ⟨place, place ▸ Store.savedKept (Store.mapWorks works) _⟩

theorem Kept.run {calls : List (List String × Bool)} (kept : Kept path (x, d))
    (run : Store.Run call path (x, d) calls (x', d')) : Kept path (x', d') :=
  run.keeps kept (fun _ _ asked known works => known.update asked.1 asked.2 works)
    (fun _ _ _ known same => ⟨known.place, (Store.loadSame _ same).trans known.file⟩)

theorem updateTells {changed : Bool} (answered : (x.update d patterns add).1 = .ok changed) :
    changed = true ↔ (x.update d patterns add).2.1.patterns ≠ x.patterns := by
  rw [updateSaves] at answered ⊢
  rcases updateWithCases Store.save x d patterns add with ⟨same, done⟩ | ⟨other, done⟩
  · rw [done] at answered ⊢
    cases answered
    simp
  · rw [done] at answered ⊢
    obtain rfl := Store.mapAnswer answered
    simp [other]

end Excludes

namespace Store
variable {path : AbsPath}

theorem storesPersist :
    (∀ {d d' : Disk} {b b' : Bookmarks} {ids : List String}, Bookmarks.load d path = .ok b →
      Run Bookmarks.toggle path (b, d) ids (b', d') →
      (∃ again, Bookmarks.load d' path = .ok again ∧ again.ids.Perm b'.ids) ∧
      ∀ id, id ∈ b'.ids ↔ (id ∈ b.ids ↔ ids.count id % 2 = 0)) ∧
    (∀ {d d' : Disk} {x x' : Excludes} {calls : List (List String × Bool)}, Excludes.load d path = .ok x →
      Run Excludes.call path (x, d) calls (x', d') →
      Excludes.load d' path = .ok x' ∧
      x'.patterns = calls.foldl (fun known asked => Excludes.revise known asked.1 asked.2) x.patterns) ∧
    (∀ (b : Bookmarks) (d : Disk) (id : String),
      (∀ other, other ∈ (b.toggle d id).2.1.ids ↔ (other ∈ b.ids ↔ other ≠ id)) ∧
      ∀ set, (b.toggle d id).1 = .ok set → (set = true ↔ id ∈ (b.toggle d id).2.1.ids)) ∧
    (∀ (x : Excludes) (d : Disk) (patterns : List String) (add : Bool),
      Excludes.Revision x.patterns patterns add (x.update d patterns add).2.1.patterns ∧
      ∀ changed, (x.update d patterns add).1 = .ok changed →
        (changed = true ↔ (x.update d patterns add).2.1.patterns ≠ x.patterns)) := by
  refine ⟨fun loaded run => ⟨?_, fun id => ?_⟩, fun loaded run => ⟨?_, ?_⟩,
    fun b d id => ⟨fun other => ?_, fun set answered => Bookmarks.toggleTells answered⟩,
    fun x d patterns add => ⟨?_, fun changed answered => Excludes.updateTells answered⟩⟩
  · exact ((Bookmarks.loadedKept loaded).run run).reopened
  · rw [run.known Bookmarks.ids Bookmarks.flip fun _ _ _ => rfl]
    exact Bookmarks.flipEach
  · exact Excludes.loadedKept.mpr ((Excludes.loadedKept.mp loaded).run run)
  · exact run.known Excludes.patterns _ fun x d asked => by rw [Excludes.call, Excludes.updated]
  · rw [Bookmarks.toggled]
    exact Bookmarks.flipMember
  · rw [Excludes.updated]
    exact Excludes.revision _ _ _

def listPath : AbsPath := ⟨["data", "list.json"]⟩

def toggledThrice : Bookmarks × Disk :=
  ["b", "a", "b"].foldl (fun s id => (s.1.toggle s.2 id).2) (⟨listPath, []⟩, {})

def repeatedList : Disk :=
  { nodes := [(⟨["data"]⟩, .dir), (listPath, .file (content ["b/**", "a", "b/**"]) 1)] }

-- The last of the calls changes nothing, so it saves nothing.
def updatedThrice : Excludes × Disk :=
  [(["c", "a", "c"], true), (["b/**"], false), (["a"], true)].foldl (fun s asked => (Excludes.call s.1 s.2 asked).2)
    (⟨listPath, ["b/**", "a", "b/**"]⟩, repeatedList)

theorem listsPersist :
    (∃ again, Bookmarks.load toggledThrice.2 listPath = .ok again ∧ again.ids.Perm ["a"]) ∧
    Excludes.load updatedThrice.2 listPath = .ok ⟨listPath, ["a", "c"]⟩ := by
  obtain ⟨marks, globs, -⟩ := @storesPersist listPath
  have fresh : Bookmarks.load {} listPath = .ok ⟨listPath, []⟩ := rfl
  have toggles : Run Bookmarks.toggle listPath (⟨listPath, []⟩, {}) ["b", "a", "b"] toggledThrice :=
    ((Run.start.call "b" (by decide +kernel)).call "a" (by decide +kernel)).call "b" (by decide +kernel)
  have repeated : Excludes.load repeatedList listPath = .ok ⟨listPath, ["b/**", "a", "b/**"]⟩ :=
    Excludes.loadedKept.mpr ⟨rfl, savedLoaded _ rfl⟩
  have updates : Run Excludes.call listPath (⟨listPath, ["b/**", "a", "b/**"]⟩, repeatedList)
      [(["c", "a", "c"], true), (["b/**"], false), (["a"], true)] updatedThrice :=
    ((Run.start.call _ (by decide +kernel)).call _ (by decide +kernel)).call _ (by decide +kernel)
  exact ⟨(marks fresh toggles).1, (globs repeated updates).1⟩

end Store
end DebugSweep
