import DebugSweep.Proofs.Directories
import DebugSweep.Proofs.Watching

/-! Ways to files. Main statements: where every node stands in a directory, a walk finds a file exactly
when its path leads there and it is there; so walks find the same files on disks that hold the same of
those that are watched. -/
namespace DebugSweep

namespace Disk

structure Housed (d : Disk) : Prop extends d.Tree where
  stands : ∀ n ∈ d.nodes, d.Directory n.1.parent

def fileAt? (d : Disk) (p : AbsPath) : Option (ByteArray × Int) :=
  match d.get? p with
  | some (.file content mtime) => some (content, mtime)
  | _ => none

section
variable {d : Disk} {p : AbsPath} {content : ByteArray} {mtime : Int}

theorem fileAtIff : d.fileAt? p = some (content, mtime) ↔ d.get? p = some (.file content mtime) := by
  unfold fileAt?
  split <;> simp_all

theorem Housed.node {node : Node} (housed : d.Housed) (found : d.get? p = some node) (deep : p.names ≠ []) :
    (p, node) ∈ d.nodes ∧ d.Directory p.parent := by
  have member := nodeFound found deep
  exact ⟨member, housed.stands _ member⟩

theorem Housed.file (housed : d.Housed) (held : d.fileAt? p = some (content, mtime)) :
    (p, .file content mtime) ∈ d.nodes ∧ d.Directory p.parent ∧ p.Proper ∧ p.names ≠ [] := by
  have found := fileAtIff.mp held
  have deep : p.names ≠ [] := by
    intro top
    simp [get?, top] at found
  obtain ⟨member, directory⟩ := housed.node found deep
  exact ⟨member, directory, housed.proper _ member, deep⟩

end
end Disk

namespace Walk

structure Leads (sel : Selector) (dir p : AbsPath) : Prop where
  below : dir.names <+: p.names
  other : dir ≠ p
  entered : ∀ q, dir.Between q p → sel.enters q = true
  taken : sel.takes p = true

section
variable {sel : Selector} {d : Disk} {dir p : AbsPath} {name : String}

theorem listedIn {node : Node} (housed : d.Housed) (found : d.get? (dir.child name) = some node) :
    ∃ entries, Source.listDir { disk := d } dir = .ok entries ∧
      (name, node.kind) ∈ entries := by
  obtain ⟨parent, named, deep⟩ := dir.childOf name
  obtain ⟨member, directory⟩ := housed.node found deep
  have here : d.get? dir = some .dir := directory dir (by rw [parent])
  obtain ⟨entries, listed⟩ : ∃ entries, Source.listDir { disk := d } dir = .ok entries := by
    simp [Source.listDir, Source.troubled, Disk.list, Disk.find, here, bind, Except.bind, Except.mapError, pure,
      Except.pure]
  have kept : listedNode dir (dir.child name, node) = some (name, node.kind) := by
    simp [listedNode, parent, named, deep]
  exact ⟨entries, listed, (listedPerm listed).mem_iff.mpr (List.mem_filterMap.mpr ⟨_, member, kept⟩)⟩

theorem Leads.parent (entered : sel.enters (dir.child name) = true) (leads : Leads sel (dir.child name) p) :
    Leads sel dir p := by
  have longer := leads.below.length_le
  simp only [AbsPath.child, List.length_append, List.length_singleton] at longer
  refine ⟨(List.prefix_append _ _).trans leads.below, ?_, ?_, leads.taken⟩
  · rintro rfl
    omega
  · intro q between
    by_cases here : q = dir.child name
    · rwa [here]
    · refine leads.entered q ⟨?_, between.above, here, between.stop⟩
      refine List.prefix_of_prefix_length_le leads.below between.above ?_
      simpa [AbsPath.child] using Nat.succ_le_of_lt between.length.1

theorem Reaches.leads {source : Source} (reaches : Reaches sel source dir p) : Leads sel dir p := by
  induction reaches with
  | @file dir entries name listed member taken =>
    refine ⟨List.prefix_append _ _, ?_, ?_, taken⟩
    · intro same
      simpa [AbsPath.child] using congrArg (fun q => q.names.length) same
    · intro q between
      have lengths := between.length
      simp only [AbsPath.child, List.length_append, List.length_singleton] at lengths
      omega
  | deeper listed member entered later ih => exact ih.parent entered

theorem Leads.child {more : List String} (leads : Leads sel dir p) (names : p.names = dir.names ++ name :: more)
    (some : more ≠ []) : dir.Between (dir.child name) p ∧ Leads sel (dir.child name) p := by
  have inside : dir.Between (dir.child name) p := by
    refine ⟨List.prefix_append _ _, ⟨more, by simp [AbsPath.child, names]⟩, ?_, ?_⟩
    · intro same
      simpa [AbsPath.child] using congrArg (fun q => q.names.length) same
    · intro same
      rw [← same] at names
      simp [AbsPath.child, some.symm] at names
  refine ⟨inside, inside.above, inside.stop, fun q between => leads.entered q ?_, leads.taken⟩
  refine ⟨inside.below.trans between.below, between.above, ?_, between.stop⟩
  rintro rfl
  have lengths := between.length.1
  simp [AbsPath.child] at lengths

theorem reachesLeads (housed : d.Housed) : Reaches sel { disk := d } dir p ↔
    Leads sel dir p ∧ (d.fileAt? p).isSome = true := by
  constructor
  · intro reaches
    obtain ⟨-, content, mtime, file⟩ := reaches.isFile housed.toTree
    exact ⟨reaches.leads, by rw [Disk.fileAtIff.mpr file]; rfl⟩
  · rintro ⟨leads, there⟩
    obtain ⟨⟨content, mtime⟩, held⟩ := Option.isSome_iff_exists.mp there
    obtain ⟨-, directory, -, -⟩ := housed.file held
    obtain ⟨names, split⟩ := leads.below
    -- The directories between stand above the file, so each of them is listed in the one before.
    induction names generalizing dir with
    | nil => exact absurd (congrArg AbsPath.mk (by simpa using split)) leads.other
    | cons name more ih =>
      by_cases last : more = []
      · subst last
        obtain rfl : p = dir.child name := congrArg AbsPath.mk split.symm
        have file := Disk.fileAtIff.mp held
        obtain ⟨entries, listed, inside⟩ := listedIn housed file
        exact .file listed inside leads.taken
      · obtain ⟨between, later⟩ := leads.child split.symm last
        have above : (dir.child name).names <+: p.parent.names := by
          refine List.prefix_of_prefix_length_le between.above (List.dropLast_prefix p.names) ?_
          have lengths := between.length.2
          rw [AbsPath.parent, List.length_dropLast]
          omega
        have folder := directory _ above
        obtain ⟨entries, listed, inside⟩ := listedIn housed folder
        exact .deeper listed inside (leads.entered _ between) (ih later (by simp [AbsPath.child, ← split]))

end
end Walk

structure Selector.Watches (sel : Selector) (p : AbsPath) : Prop where
  proper : p.Proper
  led : ∃ root ∈ sel.roots, Walk.Leads sel.unruled root p
  taken : sel.takes p = true

def Disk.Agrees (sel : Selector) (d d' : Disk) : Prop := ∀ p, sel.Watches p → d.fileAt? p = d'.fileAt? p

namespace Walk

theorem Leads.unruled {sel : Selector} {dir p : AbsPath} (leads : Leads sel dir p) : Leads sel.unruled dir p := by
  refine ⟨leads.below, leads.other, fun q between => ?_, ?_⟩
  · have entered := leads.entered q between
    rw [Selector.entersUnruled, Bool.and_eq_true] at entered
    exact entered.1
  · have taken := leads.taken
    rw [Selector.takesUnruled, Bool.and_eq_true] at taken
    exact taken.1

def Inner (sel : Selector) (dir : AbsPath) : Prop :=
  ∀ p, Leads sel dir p → ∃ root ∈ sel.roots, Leads sel root p

open Classical in
structure Whole (sel : Selector) (d : Disk) (files : List AbsPath) : Prop where
  sorted : files.Pairwise (fun a b => a.notAfter b = true)
  counted : ∀ p, files.count p = sel.roots.countP (fun root => decide (Reaches sel { disk := d } root p))

section
variable {sel : Selector} {d d' : Disk} {dir p : AbsPath} {files files' : List AbsPath} {w w' : Walk}

theorem reachesAgree (housed : d.Housed) (housed' : d'.Housed) (inner : Inner sel dir) (agrees : d.Agrees sel d') :
    Reaches sel { disk := d } dir p ↔ Reaches sel { disk := d' } dir p := by
  have watches : ∀ {e : Disk}, e.Housed → Leads sel dir p → (e.fileAt? p).isSome = true → sel.Watches p := by
    intro e house leads there
    obtain ⟨⟨content, mtime⟩, held⟩ := Option.isSome_iff_exists.mp there
    obtain ⟨root, member, led⟩ := inner p leads
    exact ⟨(house.file held).2.2.1, ⟨root, member, led.unruled⟩, leads.taken⟩
  rw [reachesLeads housed, reachesLeads housed']
  constructor
  · rintro ⟨leads, there⟩
    exact ⟨leads, agrees p (watches housed leads there) ▸ there⟩
  · rintro ⟨leads, there⟩
    exact ⟨leads, agrees p (watches housed' leads there) ▸ there⟩

theorem rootInner {root : AbsPath} (member : root ∈ sel.roots) : Inner sel root :=
  fun _ leads => ⟨root, member, leads⟩

theorem tallyAgree (housed : d.Housed) (housed' : d'.Housed) (agrees : d.Agrees sel d')
    (inner : ∀ dir ∈ w.stack, Inner sel dir) (p : AbsPath) :
    tally sel { disk := d } p w = tally sel { disk := d' } p w := by
  unfold tally
  congr 1
  refine List.countP_congr fun dir member => ?_
  simpa only [decide_eq_true_eq] using reachesAgree housed housed' (inner dir member) agrees

theorem Whole.agrees (whole : Whole sel d files) (housed : d.Housed) (housed' : d'.Housed)
    (agrees : d.Agrees sel d') : Whole sel d' files := by
  refine ⟨whole.sorted, fun p => (whole.counted p).trans (List.countP_congr fun root member => ?_)⟩
  simpa only [decide_eq_true_eq] using reachesAgree housed housed' (rootInner member) agrees

theorem Whole.member (whole : Whole sel d files) :
    p ∈ files ↔ ∃ root ∈ sel.roots, Reaches sel { disk := d } root p := by
  rw [← List.count_pos_iff, whole.counted p, List.countP_pos_iff]
  simp only [decide_eq_true_eq]

theorem Whole.file (whole : Whole sel d files) (housed : d.Housed) (member : p ∈ files) :
    sel.Watches p ∧ ∃ content mtime, d.fileAt? p = some (content, mtime) := by
  obtain ⟨root, known, reaches⟩ := whole.member.mp member
  obtain ⟨proper, content, mtime, file⟩ := reaches.isFile housed.toTree
  exact ⟨⟨proper, ⟨root, known, reaches.leads.unruled⟩, reaches.taken⟩, content, mtime, Disk.fileAtIff.mpr file⟩

theorem Whole.unique (whole : Whole sel d files) (whole' : Whole sel d files') (housed : d.Housed) :
    files = files' := by
  have perm : files.Perm files' := List.perm_iff_count.mpr fun p => (whole.counted p).trans (whole'.counted p).symm
  refine perm.eq_of_pairwise (fun a b left right before after => ?_) whole.sorted whole'.sorted
  simp only [AbsPath.notAfter, decide_eq_true_eq] at before after
  exact (whole.file housed left).1.proper.textInjective (whole'.file housed right).1.proper
    (String.le_antisymm before after)

theorem foundWhole (kept : ∀ p, tally sel { disk := d } p w = tally sel { disk := d } p (start sel))
    (done : w.stack = []) : Whole sel d (w.found.mergeSort AbsPath.notAfter) := by
  refine ⟨sortedFound w.found, fun p => ?_⟩
  have counted := kept p
  simp only [tally, done, start, List.countP_nil, List.count_nil, Nat.add_zero, Nat.zero_add] at counted
  rw [(List.mergeSort_perm _ _).count_eq p, counted]

theorem collectWhole (sel : Selector) (housed : d.Housed) :
    ∃ w, collect sel { disk := d } = .ok w ∧ Whole sel d w.found := by
  have system : Faults.SystemOnly {} := by simp [Faults.SystemOnly]
  obtain ⟨w, ran, done, kept⟩ := @runKeeps { disk := d } _ _ sel housed.toTree system (startLoad sel { disk := d })
  refine ⟨{ w with found := w.found.mergeSort AbsPath.notAfter }, ?_, foundWhole kept done⟩
  unfold collect
  rw [ran]
  rfl

end

theorem stepVisits {sel : Selector} {source : Source} {w w' : Walk} (stepped : w.step sel source = .ok w') :
    w' = w ∨ ∃ dir stack, w.stack = dir :: stack ∧
      (w'.stack = stack ∧ w'.found = w.found ∨
        ∃ entries, source.listDir dir = .ok entries ∧ w'.stack = chosen dir .dir sel.enters entries ++ stack ∧
          w'.found = chosen dir .file sel.takes entries ++ w.found) := by
  unfold step at stepped
  cases next : w.stack with
  | nil =>
    rw [next] at stepped
    cases stepped
    exact .inl rfl
  | cons dir stack =>
    rw [next] at stepped
    dsimp only at stepped
    refine .inr ⟨dir, stack, rfl, ?_⟩
    split at stepped
    · rename_i entries listed
      cases stepped
      rw [enterChosen]
      exact .inr ⟨entries, listed, rfl, rfl⟩
    · cases stepped
      exact .inl ⟨rfl, rfl⟩
    · contradiction

section
variable {sel : Selector} {source : Source} {w w' : Walk}

theorem stepInner (stepped : w.step sel source = .ok w') (inner : ∀ dir ∈ w.stack, Inner sel dir) :
    ∀ dir ∈ w'.stack, Inner sel dir := by
  rcases stepVisits stepped with rfl | ⟨dir, stack, next, ⟨same, -⟩ | ⟨entries, -, same, -⟩⟩
  · exact inner
  · rw [same]
    exact fun other member => inner other (by simp [next, member])
  · rw [same]
    intro other member
    rcases List.mem_append.mp member with new | old
    · obtain ⟨name, -, rfl, entered⟩ := chosenMember.mp new
      exact fun p leads => inner dir (by simp [next]) p (leads.parent entered)
    · exact inner other (by simp [next, old])

theorem stepProper (stepped : w.step sel source = .ok w') (tree : source.disk.Tree)
    (proper : ∀ p ∈ w.found, p.Proper) : ∀ p ∈ w'.found, p.Proper := by
  rcases stepVisits stepped with rfl | ⟨dir, stack, next, ⟨-, same⟩ | ⟨entries, listed, -, same⟩⟩
  · exact proper
  · rwa [same]
  · rw [same]
    intro p member
    rcases List.mem_append.mp member with new | old
    · obtain ⟨name, inside, rfl, -⟩ := chosenMember.mp new
      obtain ⟨n, present, here⟩ := entryNode listed inside
      exact here ▸ tree.proper n present
    · exact proper p old

end
end Walk
end DebugSweep
