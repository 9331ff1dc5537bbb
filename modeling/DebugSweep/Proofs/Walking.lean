import DebugSweep.Engine.Walk
import DebugSweep.Proofs.Batches
import Mathlib.Algebra.GroupWithZero.Nat
import Mathlib.Algebra.Order.BigOperators.Group.List
import Mathlib.Algebra.Order.Group.Nat

/-! The walk below the roots. Main statement: the walk ends, and it finds a file once for each root from
which directories that can be listed and are entered lead to it. -/
namespace DebugSweep

structure Disk.Tree (d : Disk) : Prop where
  once : (d.nodes.map Prod.fst).Nodup
  proper : ∀ n ∈ d.nodes, n.1.Proper

namespace AbsPath

theorem childParent {p q : AbsPath} (inside : q.parent = p) (deep : q.names ≠ []) : p.child q.name = q := by
  subst inside
  cases q
  simpa [child, parent, name, List.getLast?_eq_some_getLast deep] using List.dropLast_append_getLast deep

theorem childOf (dir : AbsPath) (name : String) :
    (dir.child name).parent = dir ∧ (dir.child name).name = name ∧ (dir.child name).names ≠ [] := by
  simp [child, parent, AbsPath.name]

end AbsPath

namespace Walk

inductive Reaches (sel : Selector) (source : Source) : AbsPath → AbsPath → Prop where
  | file {dir : AbsPath} {entries : List (String × EntryKind)} {name : String}
      (listed : source.listDir dir = .ok entries) (member : (name, .file) ∈ entries)
      (taken : sel.takes (dir.child name) = true) : Reaches sel source dir (dir.child name)
  | deeper {dir p : AbsPath} {entries : List (String × EntryKind)} {name : String}
      (listed : source.listDir dir = .ok entries) (member : (name, .dir) ∈ entries)
      (entered : sel.enters (dir.child name) = true)
      (later : Reaches sel source (dir.child name) p) : Reaches sel source dir p

section
variable {sel : Selector} {source : Source} {dir p : AbsPath} {entries : List (String × EntryKind)}

theorem Reaches.strictlyBelow (reaches : Reaches sel source dir p) :
    ∃ name more, p.names = dir.names ++ name :: more := by
  induction reaches with
  | file => exact ⟨_, [], rfl⟩
  | deeper listed member entered later ih =>
    obtain ⟨next, more, names⟩ := ih
    exact ⟨_, next :: more, by simpa [AbsPath.child] using names⟩

def listedNode (dir : AbsPath) (n : AbsPath × Node) : Option (String × EntryKind) :=
  if n.1.parent == dir && !n.1.names.isEmpty then some (n.1.name, n.2.kind) else none

theorem listedPerm (listed : source.listDir dir = .ok entries) :
    entries.Perm (source.disk.nodes.filterMap (listedNode dir)) := by
  unfold Source.listDir at listed
  cases trouble : Source.troubled source.faults.listDir dir.text with
  | error fault =>
    rw [trouble] at listed
    contradiction
  | ok none =>
    rw [trouble] at listed
    unfold Disk.list Disk.find at listed
    cases node : source.disk.get? dir with
    | none =>
      rw [node] at listed
      contradiction
    | some node' =>
      rw [node] at listed
      cases node' with
      | file content mtime => contradiction
      | special mtime => contradiction
      | dir =>
        cases listed
        exact List.mergeSort_perm _ _

theorem listedChild {n : AbsPath × Node} {entry : String × EntryKind} (listed : listedNode dir n = some entry) :
    dir.child entry.1 = n.1 := by
  unfold listedNode at listed
  split at listed
  · rename_i inside
    simp only [Bool.and_eq_true, beq_iff_eq, Bool.not_eq_true', List.isEmpty_eq_false_iff] at inside
    cases listed
    exact AbsPath.childParent inside.1 inside.2
  · contradiction

theorem entriesOnce (tree : source.disk.Tree) (listed : source.listDir dir = .ok entries) :
    (entries.map (fun entry => dir.child entry.1)).Nodup := by
  have perm := (listedPerm listed).map (fun entry => dir.child entry.1)
  rw [perm.nodup_iff]
  refine List.Nodup.sublist ?_ tree.once
  generalize source.disk.nodes = nodes
  induction nodes with
  | nil => exact List.Sublist.refl _
  | cons n rest ih =>
    cases here : listedNode dir n with
    | none =>
      rw [List.filterMap_cons_none here]
      exact ih.cons n.1
    | some entry =>
      rw [List.filterMap_cons_some here, List.map_cons, listedChild here]
      exact ih.cons_cons n.1

theorem entryNode (listed : source.listDir dir = .ok entries) {entry : String × EntryKind}
    (member : entry ∈ entries) : ∃ n ∈ source.disk.nodes, n.1 = dir.child entry.1 := by
  obtain ⟨n, inside, here⟩ := List.mem_filterMap.mp ((listedPerm listed).mem_iff.mp member)
  exact ⟨n, inside, (listedChild here).symm⟩

theorem Reaches.node (reaches : Reaches sel source dir p) : ∃ n ∈ source.disk.nodes, n.1 = p := by
  induction reaches with
  | file listed member taken => exact entryNode listed member
  | deeper listed member entered later ih => exact ih

def chosen (dir : AbsPath) (kind : EntryKind) (rule : AbsPath → Bool) (entries : List (String × EntryKind)) :
    List AbsPath :=
  (named dir kind entries).filter rule

theorem enterChosen (sel : Selector) (w : Walk) (dir : AbsPath) (entries : List (String × EntryKind)) :
    w.enter sel dir entries =
      { w with
        stack := chosen dir .dir sel.enters entries ++ w.stack
        found := chosen dir .file sel.takes entries ++ w.found } := rfl

theorem chosenMember {kind : EntryKind} {rule : AbsPath → Bool} :
    p ∈ chosen dir kind rule entries ↔ ∃ name, (name, kind) ∈ entries ∧ p = dir.child name ∧ rule p = true := by
  simp only [chosen, named, List.mem_filter, List.mem_map, beq_iff_eq, Prod.exists]
  constructor
  · rintro ⟨⟨name, kind, ⟨member, rfl⟩, rfl⟩, allowed⟩
    exact ⟨name, member, rfl, allowed⟩
  · rintro ⟨name, member, rfl, allowed⟩
    exact ⟨⟨name, kind, ⟨member, rfl⟩, rfl⟩, allowed⟩

theorem chosenOnce (tree : source.disk.Tree) (listed : source.listDir dir = .ok entries) (kind : EntryKind)
    (rule : AbsPath → Bool) : (chosen dir kind rule entries).Nodup :=
  (entriesOnce tree listed).sublist (List.filter_sublist.trans (List.filter_sublist.map _))

theorem reachesIff (listed : source.listDir dir = .ok entries) : Reaches sel source dir p ↔
    p ∈ chosen dir .file sel.takes entries ∨
      ∃ next ∈ chosen dir .dir sel.enters entries, Reaches sel source next p := by
  simp only [chosenMember]
  constructor
  · intro reaches
    cases reaches with
    | file listed' member taken =>
      rw [listed] at listed'
      cases listed'
      exact .inl ⟨_, member, rfl, taken⟩
    | deeper listed' member entered later =>
      rw [listed] at listed'
      cases listed'
      exact .inr ⟨_, ⟨_, member, rfl, entered⟩, later⟩
  · rintro (⟨name, member, rfl, taken⟩ | ⟨next, ⟨name, member, rfl, entered⟩, later⟩)
    · exact .file listed member taken
    · exact .deeper listed member entered later

end

theorem countOfUnique {α : Type} {holds : α → Bool} {items : List α} (once : items.Nodup)
    (unique : ∀ a ∈ items, ∀ b ∈ items, holds a = true → holds b = true → a = b) :
    items.countP holds = if items.any holds then 1 else 0 := by
  induction items with
  | nil => rfl
  | cons a rest ih =>
    obtain ⟨fresh, once'⟩ := List.nodup_cons.mp once
    rw [List.countP_cons, ih once' (fun b left c right => unique b (by simp [left]) c (by simp [right]))]
    cases here : holds a with
    | true =>
      have none : rest.any holds = false := by
        rw [List.any_eq_false]
        intro b member also
        exact fresh (unique a (by simp) b (by simp [member]) here also ▸ member)
      simp [here, none]
    | false => simp [here]

open Classical in
theorem coveredOnceIff {α β : Type} {covers : α → β → Prop} (wanted : β → Prop) (items : List α) :
    (∀ b, wanted b → items.countP (fun a => decide (covers a b)) ≤ 1) ↔
      items.Pairwise (fun a a' => ∀ b, covers a b → covers a' b → ¬ wanted b) := by
  induction items with
  | nil => simp
  | cons a rest ih =>
    rw [List.pairwise_cons, ← ih]
    constructor
    · intro few
      refine ⟨?_, fun b want => ?_⟩
      · intro a' member b first second want
        have twice := few b want
        have once : 0 < rest.countP (fun a => decide (covers a b)) :=
          List.countP_pos_iff.mpr ⟨a', member, by simpa using second⟩
        rw [List.countP_cons_of_pos (by simpa using first)] at twice
        omega
      · exact Nat.le_trans (List.countP_cons ▸ Nat.le_add_right _ _) (few b want)
    · rintro ⟨apart, few⟩ b want
      by_cases first : covers a b
      · have none : rest.countP (fun a => decide (covers a b)) = 0 := by
          rw [List.countP_eq_zero]
          intro a' member second
          exact apart a' member b first (by simpa using second) want
        rw [List.countP_cons_of_pos (by simpa using first), none]
      · rw [List.countP_cons_of_neg (by simpa using first)]
        exact few b want

open Classical in
noncomputable def tally (sel : Selector) (source : Source) (p : AbsPath) (w : Walk) : Nat :=
  w.found.count p + w.stack.countP (fun dir => decide (Reaches sel source dir p))

def weight (d : Disk) (dir : AbsPath) : Nat :=
  1 + d.nodes.countP (fun n => dir.names.isPrefixOf n.1.names && n.1 != dir)

def load (d : Disk) (w : Walk) : Nat := (w.stack.map (weight d)).sum

section
variable {sel : Selector} {source : Source} {dir p : AbsPath} {entries : List (String × EntryKind)} {w : Walk}

theorem chosenTally (tree : source.disk.Tree) (listed : source.listDir dir = .ok entries) (p : AbsPath) :
    tally sel source p ⟨chosen dir .dir sel.enters entries, chosen dir .file sel.takes entries, []⟩ =
      tally sel source p ⟨[dir], [], []⟩ := by
  classical
  have children : ∀ kind rule, ∀ a ∈ chosen dir kind rule entries, ∃ name, a.names = dir.names ++ [name] := by
    intro kind rule a member
    obtain ⟨name, -, rfl, -⟩ := chosenMember.mp member
    exact ⟨name, rfl⟩
  -- Two children that lead to one file have the same name, and a child is no place below a child.
  have unique : ∀ a ∈ chosen dir .dir sel.enters entries, ∀ b ∈ chosen dir .dir sel.enters entries,
      Reaches sel source a p → Reaches sel source b p → a = b := by
    intro a left b right viaA viaB
    obtain ⟨nameA, namesA⟩ := children _ _ a left
    obtain ⟨nameB, namesB⟩ := children _ _ b right
    obtain ⟨nextA, moreA, splitA⟩ := viaA.strictlyBelow
    obtain ⟨nextB, moreB, splitB⟩ := viaB.strictlyBelow
    rw [splitA, namesA, namesB] at splitB
    cases a
    cases b
    simp_all
  have apart : p ∈ chosen dir .file sel.takes entries →
      ¬ ∃ a ∈ chosen dir .dir sel.enters entries, Reaches sel source a p := by
    rintro member ⟨a, inside, via⟩
    obtain ⟨name, names⟩ := children _ _ p member
    obtain ⟨nameA, namesA⟩ := children _ _ a inside
    obtain ⟨next, more, split⟩ := via.strictlyBelow
    rw [names, namesA] at split
    simpa using congrArg List.length split
  unfold tally
  dsimp only
  rw [(chosenOnce tree listed .file sel.takes).count,
    countOfUnique (chosenOnce tree listed .dir sel.enters) (by simpa using unique)]
  simp only [List.count_nil, List.countP_cons, List.countP_nil, List.any_eq_true, decide_eq_true_eq,
    reachesIff listed]
  by_cases file : p ∈ chosen dir .file sel.takes entries
  · simp [file, apart file]
  · simp [file]

theorem countSum {α β : Type} (holds : α → β → Bool) (items : List α) (b : β) (rest : List β) :
    (items.map (fun a => (b :: rest).countP (holds a))).sum =
      (items.map (fun a => rest.countP (holds a))).sum + items.countP (fun a => holds a b) := by
  induction items with
  | nil => rfl
  | cons a items ih =>
    rw [List.map_cons, List.sum_cons, ih, List.map_cons, List.sum_cons, List.countP_cons, List.countP_cons]
    omega

theorem belowChildren {children : List AbsPath} (once : children.Nodup)
    (named : ∀ c ∈ children, ∃ name, c.names = dir.names ++ [name]) (nodes : List (AbsPath × Node)) :
    (children.map (fun c => nodes.countP (fun n => c.names.isPrefixOf n.1.names))).sum ≤
      nodes.countP (fun n => dir.names.isPrefixOf n.1.names && n.1 != dir) := by
  induction nodes with
  | nil => simp
  | cons n rest ih =>
    rw [countSum (fun (c : AbsPath) (n : AbsPath × Node) => c.names.isPrefixOf n.1.names), List.countP_cons]
    refine Nat.add_le_add ih ?_
    have unique : ∀ a ∈ children, ∀ b ∈ children, a.names.isPrefixOf n.1.names = true →
        b.names.isPrefixOf n.1.names = true → a = b := by
      intro a left b right viaA viaB
      obtain ⟨nameA, namesA⟩ := named a left
      obtain ⟨nameB, namesB⟩ := named b right
      obtain ⟨moreA, splitA⟩ := List.isPrefixOf_iff_prefix.mp viaA
      obtain ⟨moreB, splitB⟩ := List.isPrefixOf_iff_prefix.mp viaB
      rw [← splitA, namesA, namesB] at splitB
      cases a
      cases b
      simp_all
    rw [countOfUnique once unique]
    split
    · rename_i below
      obtain ⟨c, member, along⟩ := List.any_eq_true.mp below
      obtain ⟨more, split⟩ := List.isPrefixOf_iff_prefix.mp along
      obtain ⟨name, names⟩ := named c member
      have inside : dir.names <+: n.1.names := ⟨name :: more, by simp [← split, names]⟩
      have other : n.1 ≠ dir := by
        intro same
        rw [← same, ← split] at names
        simpa using congrArg List.length names
      simp [inside, other]
    · exact Nat.zero_le _

theorem chosenLoad (tree : source.disk.Tree) (listed : source.listDir dir = .ok entries) :
    ((chosen dir .dir sel.enters entries).map (weight source.disk)).sum < weight source.disk dir := by
  have named : ∀ c ∈ chosen dir .dir sel.enters entries, ∃ name, c.names = dir.names ++ [name] := by
    intro c member
    obtain ⟨name, -, rfl, -⟩ := chosenMember.mp member
    exact ⟨name, rfl⟩
  have counted : ∀ c ∈ chosen dir .dir sel.enters entries, weight source.disk c ≤
      source.disk.nodes.countP (fun n => c.names.isPrefixOf n.1.names) := by
    intro c member
    obtain ⟨name, inside, rfl, -⟩ := chosenMember.mp member
    obtain ⟨n, present, here⟩ := entryNode listed inside
    obtain ⟨left, right, split⟩ := List.append_of_mem present
    have fewer : ∀ nodes : List (AbsPath × Node),
        nodes.countP (fun n => (dir.child name).names.isPrefixOf n.1.names && n.1 != dir.child name) ≤
          nodes.countP (fun n => (dir.child name).names.isPrefixOf n.1.names) :=
      fun nodes => List.countP_mono_left fun n _ both => (Bool.and_eq_true _ _ ▸ both).1
    have leftFewer := fewer left
    have rightFewer := fewer right
    have itself : (n :: right).countP (fun n => (dir.child name).names.isPrefixOf n.1.names) =
        right.countP (fun n => (dir.child name).names.isPrefixOf n.1.names) + 1 := by simp [here]
    rw [weight, split, List.countP_append, List.countP_append, itself,
      List.countP_cons_of_neg (by simp [here])]
    omega
  have sums := List.sum_le_sum counted
  have whole := belowChildren (chosenOnce tree listed .dir sel.enters) named source.disk.nodes
  unfold weight at sums ⊢
  omega

theorem listSystem {fault : Fault} (only : source.faults.SystemOnly)
    (failed : source.listDir dir = .error fault) : ∃ failure, fault = .os failure := by
  unfold Source.listDir at failed
  cases trouble : Source.troubled source.faults.listDir dir.text with
  | error cause =>
    rw [trouble] at failed
    cases failed
    exact troubledSystem (fun entry member => only entry (by simp [member])) trouble
  | ok none =>
    rw [trouble] at failed
    cases held : source.disk.list dir with
    | error failure =>
      rw [held] at failed
      cases failed
      exact ⟨failure, rfl⟩
    | ok entries =>
      rw [held] at failed
      contradiction

theorem tallyParts (sel : Selector) (source : Source) (p : AbsPath) (found stack : List AbsPath)
    (errors errors' : List (AbsPath × Fault)) (w : Walk) :
    tally sel source p ⟨stack ++ w.stack, found ++ w.found, errors⟩ =
      tally sel source p ⟨stack, found, errors'⟩ + tally sel source p w := by
  simp only [tally, List.count_append, List.countP_append]
  omega

theorem stepKeeps {stack : List AbsPath} (sel : Selector) (tree : source.disk.Tree) (system : source.faults.SystemOnly)
    (next : w.stack = dir :: stack) :
    ∃ w', w.step sel source = .ok w' ∧ (∀ p, tally sel source p w' = tally sel source p w) ∧
      load source.disk w' < load source.disk w := by
  have before : load source.disk w = weight source.disk dir + (stack.map (weight source.disk)).sum := by
    simp [load, next]
  have split : ∀ p, tally sel source p w =
      tally sel source p ⟨[dir], [], []⟩ + tally sel source p { w with stack } := by
    intro p
    have parts := tallyParts sel source p [] [dir] w.errors [] { w with stack }
    rwa [List.nil_append, List.singleton_append, ← next] at parts
  unfold step
  rw [next]
  dsimp only
  cases listed : source.listDir dir with
  | ok entries =>
    refine ⟨_, rfl, ?_, ?_⟩
    · intro p
      rw [split p, ← chosenTally tree listed p, enterChosen]
      exact tallyParts sel source p _ _ w.errors [] { w with stack }
    · rw [enterChosen, before, load, List.map_append, List.sum_append]
      exact Nat.add_lt_add_right (chosenLoad tree listed) _
  | error fault =>
    obtain ⟨failure, rfl⟩ := listSystem system listed
    refine ⟨_, rfl, ?_, ?_⟩
    · intro p
      have nothing : tally sel source p ⟨[dir], [], []⟩ = 0 := by
        have unreached : ¬ Reaches sel source dir p := by
          intro reaches
          cases reaches <;> simp_all
        simp [tally, unreached]
      rw [split p, nothing, Nat.zero_add]
      rfl
    · rw [before, weight]
      exact Nat.lt_add_of_pos_left (by omega)

theorem runKeeps {fuel : Nat} (sel : Selector) (tree : source.disk.Tree) (system : source.faults.SystemOnly)
    (enough : load source.disk w < fuel) :
    ∃ w', run sel source fuel w = .ok w' ∧ w'.stack = [] ∧
      ∀ p, tally sel source p w' = tally sel source p w := by
  induction fuel generalizing w with
  | zero => omega
  | succ fuel ih =>
    unfold run
    cases next : w.stack with
    | nil => exact ⟨w, rfl, next, fun _ => rfl⟩
    | cons dir stack =>
      obtain ⟨w', stepped, kept, less⟩ := stepKeeps sel tree system next
      obtain ⟨w'', ran, done, kept'⟩ := ih (w := w') (by omega)
      dsimp only
      rw [stepped]
      exact ⟨w'', ran, done, fun p => (kept' p).trans (kept p)⟩

theorem startLoad (sel : Selector) (source : Source) : load source.disk (start sel) < bound sel source := by
  have each : ∀ dir ∈ sel.roots, weight source.disk dir ≤ source.disk.nodes.length + 1 := by
    intro dir _
    have few := List.countP_le_length (p := fun n : AbsPath × Node => dir.names.isPrefixOf n.1.names && n.1 != dir)
      (l := source.disk.nodes)
    unfold weight
    omega
  have sums := List.sum_le_sum each
  rw [List.map_const', List.sum_replicate_nat] at sums
  exact Nat.lt_succ_of_le sums

theorem sortedFound (found : List AbsPath) :
    (found.mergeSort AbsPath.notAfter).Pairwise (fun a b => a.notAfter b = true) := by
  apply List.pairwise_mergeSort
  · simpa [AbsPath.notAfter] using fun a b c => String.le_trans
  · simpa [AbsPath.notAfter] using fun a b => String.le_total (AbsPath.text a) (AbsPath.text b)

theorem collectOnce (sel : Selector) (tree : source.disk.Tree) (system : source.faults.SystemOnly) :
    ∃ w, collect sel source = .ok w ∧
      (∀ p, p ∈ w.found ↔ ∃ root ∈ sel.roots, Reaches sel source root p) ∧
      ∀ wanted : AbsPath → Prop, (∀ p, wanted p → w.found.count p ≤ 1) ↔
        sel.roots.Pairwise (fun a b => ∀ p, Reaches sel source a p → Reaches sel source b p → ¬ wanted p) := by
  classical
  obtain ⟨w, ran, done, kept⟩ := runKeeps sel tree system (startLoad sel source)
  have counts : ∀ p, (w.found.mergeSort AbsPath.notAfter).count p =
      sel.roots.countP (fun root => decide (Reaches sel source root p)) := by
    intro p
    have counted := kept p
    simp only [tally, done, start, List.countP_nil, List.count_nil, Nat.add_zero, Nat.zero_add] at counted
    rw [(List.mergeSort_perm _ _).count_eq p, counted]
  refine ⟨{ w with found := w.found.mergeSort AbsPath.notAfter }, ?_, ?_, ?_⟩
  · unfold collect
    rw [ran]
    rfl
  · intro p
    rw [← List.count_pos_iff, counts p, List.countP_pos_iff]
    simp only [decide_eq_true_eq]
  · intro wanted
    simp only [counts]
    rw [← coveredOnceIff]

end
end Walk
end DebugSweep
