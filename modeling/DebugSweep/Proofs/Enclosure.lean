import DebugSweep.Lexis.Terminator
import DebugSweep.Proofs.Residue

/-! Brackets of candidates. The scanner passes over some braces, while the finder of terminators counts all
brackets. Main statement: both agree on a candidate whose brackets are nested: from its first character on,
its own semicolon is the first one that stands in no bracket. -/
namespace DebugSweep.Lexis
open Text

def closerFor? (c : Char) : Option Char :=
  if c = '(' then some ')' else if c = '[' then some ']' else if c = '\x7b' then some '\x7d' else none

def isCloser (c : Char) : Bool := c == ')' || c == ']' || c == '\x7d'

/-- The closers of the brackets open behind a character, innermost first; none if it closes a bracket
that is not the innermost one. -/
def nestOne (inner : List Char) (c : Char) : Option (List Char) :=
  match closerFor? c with
  | some closer => some (closer :: inner)
  | none => if isCloser c then (if inner.head? = some c then some inner.tail else none) else some inner

def nest (inner : List Char) : List Char → Option (List Char)
  | [] => some inner
  | c :: rest => (nestOne inner c).bind (nest · rest)

def Nested (text : List Char) : Prop := nest [] text = some []

instance (text : List Char) : Decidable (Nested text) := inferInstanceAs (Decidable (_ = _))

def Guarded (inner text : List Char) : Prop := ∀ front back, text = front ++ ';' :: back → nest inner front ≠ some []

theorem nestAppend (inner left right : List Char) :
    nest inner (left ++ right) = (nest inner left).bind (nest · right) := by
  induction left generalizing inner with
  | nil => rfl
  | cons c left ih =>
    rw [List.cons_append, nest, nest]
    cases nestOne inner c with
    | none => rfl
    | some inner' => exact ih inner'

theorem closerForIff {c closer : Char} : closerFor? c = some closer ↔
    c = '(' ∧ closer = ')' ∨ c = '[' ∧ closer = ']' ∨ c = '\x7b' ∧ closer = '\x7d' := by
  unfold closerFor?
  split
  · simp_all [eq_comm]
  · split
    · simp_all [eq_comm]
    · split <;> simp_all [eq_comm]

theorem isCloserIff {c : Char} : isCloser c = true ↔ c = ')' ∨ c = ']' ∨ c = '\x7d' := by
  simp [isCloser, or_assoc]

inductive Nests (c : Char) : List Char → List Char → Prop
  | opens {inner : List Char} {closer : Char} (opener : closerFor? c = some closer) :
      Nests c inner (closer :: inner)
  | closes {inner : List Char} (closer : isCloser c = true) : Nests c (c :: inner) inner
  | passes {inner : List Char} (opener : closerFor? c = none) (closer : isCloser c = false) : Nests c inner inner

theorem nests {inner inner' : List Char} {c : Char} (nests : nestOne inner c = some inner') :
    Nests c inner inner' := by
  unfold nestOne at nests
  split at nests
  · rename_i closer opener
    cases nests
    exact .opens opener
  · rename_i opener
    split at nests
    · rename_i closer
      split at nests
      · rename_i innermost
        cases nests
        obtain ⟨outer, rfl⟩ := List.head?_eq_some_iff.mp innermost
        exact .closes closer
      · contradiction
    · rename_i other
      cases nests
      exact .passes opener (by simpa using other)

theorem nestBlanks {text : List Char} (blank : allBlank text = true) (inner : List Char) :
    nest inner text = some inner := by
  induction text with
  | nil => rfl
  | cons c rest ih =>
    rw [allBlank, List.all_cons, Bool.and_eq_true] at blank
    have other (d : Char) (shown : isBlank d = false) : c ≠ d := blankOther blank.1 shown
    have opener : closerFor? c = none := by simp [closerFor?, other '(' rfl, other '[' rfl, other '\x7b' rfl]
    have closer : isCloser c = false := by simp [isCloser, other ')' rfl, other ']' rfl, other '\x7d' rfl]
    simpa [nest, nestOne, opener, closer] using ih blank.2

def depthOf (inner : List Char) : Brackets :=
  ⟨inner.count ')', inner.count ']', inner.count '\x7d'⟩

theorem Nests.closers {inner inner' : List Char} {c : Char} (nests : Nests c inner inner')
    (closers : ∀ d ∈ inner, isCloser d = true) : ∀ d ∈ inner', isCloser d = true := by
  cases nests with
  | opens opener =>
    refine List.forall_mem_cons.mpr ⟨?_, closers⟩
    rcases closerForIff.mp opener with ⟨_, rfl⟩ | ⟨_, rfl⟩ | ⟨_, rfl⟩ <;> rfl
  | closes => exact (List.forall_mem_cons.mp closers).2
  | passes => exact closers

theorem nestClosers {inner inner' text : List Char} (closers : ∀ d ∈ inner, isCloser d = true)
    (opens : nest inner text = some inner') : ∀ d ∈ inner', isCloser d = true := by
  induction text generalizing inner with
  | nil =>
    cases opens
    exact closers
  | cons c text ih =>
    obtain ⟨between, here, later⟩ := Option.bind_eq_some_iff.mp opens
    exact ih ((nests here).closers closers) later

theorem topLevelIff {inner : List Char} (closers : ∀ d ∈ inner, isCloser d = true) :
    (depthOf inner).isTopLevel = true ↔ inner = [] := by
  cases inner with
  | nil => simp [depthOf, Brackets.isTopLevel]
  | cons c inner =>
    refine iff_of_false (fun top => ?_) (by simp)
    have counted : 0 < (c :: inner).count c := List.count_pos_iff.mpr List.mem_cons_self
    rw [Brackets.isTopLevel, Bool.and_eq_true, Bool.and_eq_true, decide_eq_true_iff, decide_eq_true_iff,
      decide_eq_true_iff] at top
    dsimp only [depthOf] at top
    rcases isCloserIff.mp (closers c List.mem_cons_self) with rfl | rfl | rfl
    · omega
    · omega
    · omega

theorem closeOneLess (count : Nat) : closeOne true ((count + 1 : Nat) : Int) = count := by
  have positive : ¬ ((count + 1 : Nat) : Int) ≤ 0 := by omega
  rw [closeOne, Bool.true_and, decide_eq_false positive, if_neg Bool.false_ne_true]
  omega

theorem Nests.apply {inner inner' : List Char} {c : Char} (nests : Nests c inner inner') :
    (depthOf inner).apply true c = depthOf inner' := by
  cases nests with
  | opens opener =>
    rcases closerForIff.mp opener with ⟨rfl, rfl⟩ | ⟨rfl, rfl⟩ | ⟨rfl, rfl⟩ <;> simp [depthOf, Brackets.apply]
  | closes closer =>
    rcases isCloserIff.mp closer with rfl | rfl | rfl <;>
      rw [depthOf, Brackets.apply, List.count_cons_self, closeOneLess, depthOf] <;>
        simp only [List.count_cons_of_ne, ne_eq, Char.reduceEq, not_false_eq_true]
  | passes opener closer =>
    unfold Brackets.apply
    split <;> simp_all [closerFor?, isCloser]

-- The induction is on the characters before the terminator; the counts are those of the open brackets.
theorem terminatorNested {front back : List (Nat × Char)} {inner : List Char} {o : Nat}
    (closers : ∀ d ∈ inner, isCloser d = true) (closed : nest inner (front.map Prod.snd) = some [])
    (guarded : Guarded inner (front.map Prod.snd)) :
    findTerminator (depthOf inner) (front ++ (o, ';') :: back) = .ok o := by
  induction front generalizing inner with
  | nil =>
    obtain rfl : inner = [] := by simpa [nest] using closed
    rfl
  | cons head front ih =>
    obtain ⟨offset, c⟩ := head
    rw [List.map_cons, nest] at closed
    obtain ⟨inner', here, closed⟩ := Option.bind_eq_some_iff.mp closed
    have step := nests here
    have inside : ¬ (c == ';' && (depthOf inner).isTopLevel) = true := by
      intro both
      rw [Bool.and_eq_true, beq_iff_eq, topLevelIff closers] at both
      obtain ⟨rfl, rfl⟩ := both
      exact guarded [] _ rfl rfl
    rw [List.cons_append, findTerminator, if_neg inside, step.apply]
    apply ih (step.closers closers) closed
    intro before back split
    have later := guarded (c :: before) back (by rw [List.map_cons, split]; rfl)
    rwa [nest, here] at later

theorem opensCloser {before : List Char} {c closer : Char} (opens : opens? before c = some closer) :
    closerFor? c = some closer := by
  rcases opensSome.mp opens with ⟨rfl, rfl⟩ | ⟨rfl, rfl⟩ | ⟨⟨rfl, -⟩, rfl⟩ <;> rfl

theorem plainBrace {before : List Char} {c closer : Char} (plain : opens? before c = none)
    (opener : closerFor? c = some closer) : c = '\x7b' ∧ closer = '\x7d' := by
  rcases closerForIff.mp opener with ⟨rfl, -⟩ | ⟨rfl, -⟩ | both
  · simp [opens?] at plain
  · simp [opens?] at plain
  · exact both

/-- Closers of open brackets, where those of some braces are left out. -/
inductive Thinned : List Char → List Char → Prop
  | nil : Thinned [] []
  | both {closers inner : List Char} (c : Char) (outer : Thinned closers inner) : Thinned (c :: closers) (c :: inner)
  | brace {closers inner : List Char} (outer : Thinned closers inner) : Thinned closers ('\x7d' :: inner)

theorem Thinned.without {closers inner : List Char} (thin : Thinned ('\x7d' :: closers) inner) :
    Thinned closers inner := by
  generalize given : '\x7d' :: closers = all at thin
  induction thin with
  | nil => contradiction
  | both c outer =>
    obtain ⟨rfl, rfl⟩ := List.cons.inj given
    exact .brace outer
  | brace outer ih => exact .brace (ih given)

theorem Thinned.subset {closers inner : List Char} (thin : Thinned closers inner) : closers ⊆ inner := by
  induction thin with
  | nil => exact List.Subset.refl _
  | both c outer ih => exact List.cons_subset_cons c ih
  | brace outer ih => exact List.subset_cons_of_subset _ ih

namespace Cutter

inductive Turned (s : Cutter) (c : Char) : List Char → Prop
  | opens {closer : Char} (opener : closerFor? c = some closer) : Turned s c (closer :: s.closers)
  | closes {outer : List Char} (innermost : s.closers = c :: outer) : Turned s c outer
  | inside (inside : s.closers ≠ []) (other : s.closers.head? ≠ some c)
      (opener : ∀ closer ∈ closerFor? c, closer = '\x7d') : Turned s c s.closers
  | outside (closed : s.closers = []) (plain : c ≠ '\x7d' ∧ c ≠ ';') (opener : closerFor? c = none) : Turned s c []

theorem stepTurns {s s' : Cutter} {c : Char} {rest : List Char} (next : s.step c rest = s')
    (kept : s'.pending = c :: s.pending) : s.Turned c s'.closers := by
  cases next ▸ s.reads c rest with
  | opens _ opener => exact .opens (opensCloser opener)
  | closes _ _ innermost => exact .closes innermost
  | inside _ plain within other => exact .inside within other fun closer opener => (plainBrace plain opener).2
  | outside _ plain closed _ others =>
    rw [show (s.keep c).closers = [] from closed]
    refine .outside closed others.2 ?_
    cases opener : closerFor? c with
    | none => rfl
    | some closer => exact absurd (plainBrace plain opener).1 others.1
  | _ => contradiction

theorem Turned.thinned {s : Cutter} {c : Char} {inner inner' closers : List Char} (turned : s.Turned c closers)
    (thin : Thinned s.closers inner) (marks : ∀ d ∈ inner, isCloser d = true) (nests : Nests c inner inner') :
    Thinned closers inner' := by
  have mark {closers : List Char} (thin : Thinned (c :: closers) inner) : isCloser c = true :=
    marks c (thin.subset List.mem_cons_self)
  cases nests with
  | opens opener =>
    have plain : isCloser c = false := by
      rcases closerForIff.mp opener with ⟨rfl, _⟩ | ⟨rfl, _⟩ | ⟨rfl, _⟩ <;> rfl
    cases turned with
    | opens opener' =>
      obtain rfl := Option.some.inj (opener.symm.trans opener')
      exact .both _ thin
    | closes innermost =>
      rw [innermost] at thin
      simp [mark thin] at plain
    | inside _ _ brace =>
      obtain rfl := brace _ opener
      exact .brace thin
    | outside _ _ free => simp [opener] at free
  | closes shut =>
    have free : closerFor? c = none := by
      rcases isCloserIff.mp shut with rfl | rfl | rfl <;> rfl
    cases turned with
    | opens opener => simp [opener] at free
    | closes innermost =>
      rw [innermost] at thin
      cases thin with
      | both c thin => exact thin
      | brace thin => exact thin.without
    | inside inside other =>
      generalize s.closers = closers at *
      cases thin with
      | both c thin => simp at other
      | brace thin => exact thin
    | outside closed plain =>
      rw [closed] at thin
      cases thin
      simp at plain
  | passes free plain =>
    cases turned with
    | opens opener => simp [opener] at free
    | closes innermost =>
      rw [innermost] at thin
      simp [mark thin] at plain
    | inside => exact thin
    | outside closed => rwa [closed] at thin

theorem Turned.semicolon {s : Cutter} {closers : List Char} (turned : s.Turned ';' closers) : s.closers ≠ [] := by
  cases turned with
  | opens opener => simp [closerFor?] at opener
  | closes innermost => simp [innermost]
  | inside inside => exact inside
  | outside _ plain => simp at plain

structure Enclosed (s : Cutter) : Prop where
  passing : 0 < s.skip → s.closers = []
  pending : ∀ inner, nest [] s.pending.reverse = some inner →
    Thinned s.closers inner ∧ Guarded [] s.pending.reverse

theorem Enclosed.fresh {s : Cutter} (closed : s.closers = []) (edge : s.pending = []) : s.Enclosed := by
  refine ⟨fun _ => closed, fun inner opens => ?_⟩
  rw [edge] at opens ⊢
  cases opens
  rw [closed]
  exact ⟨.nil, fun front back split => by simp at split⟩

theorem Enclosed.step {s : Cutter} {c : Char} {rest : List Char} (enclosed : s.Enclosed) :
    (s.step c rest).Enclosed := by
  generalize next : s.step c rest = s'
  have turns := @stepTurns s s' c rest next
  cases next ▸ s.stepped c rest with
  | pass passing => exact .fresh (enclosed.passing passing) rfl
  | tag _ closed => exact .fresh closed rfl
  | brace _ closed => exact .fresh closed rfl
  | done _ closed => exact .fresh closed rfl
  | keep still =>
    refine ⟨fun passing => ?_, fun inner' opens => ?_⟩
    · simp [keep, still] at passing
    have turns := turns rfl
    simp only [keep, List.reverse_cons] at opens ⊢
    rw [nestAppend] at opens
    obtain ⟨inner, before, here⟩ := Option.bind_eq_some_iff.mp opens
    obtain ⟨thin, guarded⟩ := enclosed.pending inner before
    have marks := nestClosers (by simp) before
    obtain ⟨_, here, ⟨⟩⟩ := Option.bind_eq_some_iff.mp here
    refine ⟨turns.thinned thin marks (nests here), ?_⟩
    intro front back split
    rcases List.eq_nil_or_concat' back with rfl | ⟨back', d, rfl⟩
    · obtain ⟨rfl, last⟩ := List.append_inj' split rfl
      obtain rfl : c = ';' := by simpa using last
      rw [before]
      rintro ⟨⟩
      exact turns.semicolon (List.eq_nil_of_subset_nil thin.subset)
    · rw [← List.cons_append, ← List.append_assoc] at split
      exact guarded front back' (List.append_inj' split rfl).1

theorem Enclosed.through {s : Cutter} (enclosed : s.Enclosed) (rest text : List Char) :
    (s.through rest text).Enclosed := by
  induction text generalizing s with
  | nil => exact enclosed
  | cons c text ih => exact ih enclosed.step

end Cutter

theorem segmentGuarded {code : List Char} {g : Segment} (member : g ∈ segments code) (nested : Nested g.text) :
    ∃ front, g.text = front ++ [';'] ∧ Nested front ∧ Guarded [] front := by
  obtain ⟨early, late, split⟩ := List.append_of_mem member
  have runs : Cutter.run {} code = [].reverse ++ (early ++ g :: late) := split
  obtain ⟨u, v, rfl, _, _, done, _⟩ := Cutter.cutsOff runs
  obtain ⟨rfl, -⟩ := List.cons.inj done
  have enclosed := (Cutter.Enclosed.fresh rfl rfl : Cutter.Enclosed {}).through (';' :: v) u
  generalize Cutter.through {} (';' :: v) u = s at *
  refine ⟨s.pending.reverse, List.reverse_cons, ?_⟩
  unfold Nested at nested ⊢
  rw [List.reverse_cons, nestAppend] at nested
  obtain ⟨inner, before, here⟩ := Option.bind_eq_some_iff.mp nested
  obtain rfl : inner = [] := by simpa [nest, nestOne, closerFor?, isCloser] using here
  exact ⟨before, (enclosed.pending [] before).2⟩

theorem segmentShown {code : List Char} {g : Segment} (member : g ∈ segments code) (nested : Nested g.text) :
    g.leading ≤ g.stop ∧ Nested ((code.take g.stop).drop g.leading) ∧
      Guarded [] ((code.take g.stop).drop g.leading) := by
  obtain ⟨front, text, nested, guarded⟩ := segmentGuarded member nested
  have lies := segmentsLie code g member
  have inside := lies.inside
  have order := lies.order
  obtain rfl : front = (code.take g.stop).drop g.start := by
    have whole := lies.text
    rw [List.take_succ_eq_append_getElem inside, List.drop_append_of_le_length (by simp; omega), text] at whole
    exact (List.append_inj' whole rfl).1
  generalize shown : (code.take g.stop).drop g.start = front at *
  have blanks : g.text.takeWhile isBlank = front.takeWhile isBlank := by
    rw [text, List.takeWhile_append, List.takeWhile_cons_of_neg (by decide), List.append_nil]
    split
    · rename_i same
      exact ((List.takeWhile_prefix _).eq_of_length same).symm
    · rfl
  have size := congrArg List.length shown
  have short := (List.takeWhile_prefix (l := front) isBlank).length_le
  simp only [List.length_drop, List.length_take] at size
  have behind : (code.take g.stop).drop g.leading = front.dropWhile isBlank := by
    have rest := List.takeWhile_append_dropWhile (p := isBlank) (l := front)
    rw [Segment.leading, blanks, ← List.drop_drop, shown]
    exact (congrArg (List.drop _) rest.symm).trans List.drop_left
  have blank : allBlank (front.takeWhile isBlank) = true := List.all_takeWhile
  rw [behind]
  rw [Nested, ← List.takeWhile_append_dropWhile (p := isBlank) (l := front), nestAppend, nestBlanks blank] at nested
  refine ⟨?_, nested, ?_⟩
  · rw [Segment.leading, blanks]
    omega
  · intro before back split
    have later := guarded (front.takeWhile isBlank ++ before) back (by
      rw [List.append_assoc, ← split, List.takeWhile_append_dropWhile])
    rwa [nestAppend, nestBlanks blank] at later

end DebugSweep.Lexis
