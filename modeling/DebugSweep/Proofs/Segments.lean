import DebugSweep.Lexis.Segment
import DebugSweep.Proofs.Reading
import Mathlib.Data.List.Basic
import Mathlib.Data.List.Pairwise
import Mathlib.Data.List.TakeWhile

/-! Where candidates stand in a line of code. Main statements: each candidate is the stretch of code
between its offsets, candidates follow each other without overlap, and the code in front of a
recognised statement does not end in a slash. -/
namespace DebugSweep.Lexis
open Text

structure Segment.Lies (code : List Char) (g : Segment) : Prop where
  order : g.start ≤ g.stop
  inside : g.stop < code.length
  text : g.text = (code.take (g.stop + 1)).drop g.start
  edge : g.start = 0 ∨ code[g.start - 1]? ≠ some '/'

theorem Segment.Lies.append {code : List Char} {g : Segment} (lies : g.Lies code)
    (more : List Char) : g.Lies (code ++ more) := by
  have inside := lies.inside
  have order := lies.order
  refine ⟨order, by simp; omega, ?_, ?_⟩
  · rw [List.take_append_of_le_length (by omega)]
    exact lies.text
  · rcases lies.edge with first | edge
    · exact Or.inl first
    · exact Or.inr (by rwa [List.getElem?_append_left (by omega)])

def Spells (tag : String) (text : List Char) : Prop := (text.take tag.length).map Char.toLower = tag.toList

/-- A tag of so many characters stands at the start of the text. The long opening tag goes before the
short one. -/
inductive Tag (text : List Char) : Nat → Prop where
  | closing (spelled : Spells "?>" text) : Tag text 2
  | opening (spelled : Spells "<?php" text) : Tag text 5
  | short (spelled : Spells "<?" text) (other : ¬ Spells "<?php" text) : Tag text 2

theorem spellsIff {tag : String} {text : List Char} :
    tag.toList.isPrefixOf ((text.take tag.length).map Char.toLower) = true ↔ Spells tag text := by
  constructor
  · intro starts
    refine ((List.isPrefixOf_iff_prefix.mp starts).eq_of_length_le ?_).symm
    rw [List.length_map, List.length_take, String.length_toList]
    exact Nat.min_le_left _ _
  · intro spelled
    exact List.isPrefixOf_iff_prefix.mpr ⟨[], by rw [List.append_nil, show _ = _ from spelled]⟩

theorem spellsHead {tag : String} {first : Char} {text : List Char} (spelled : Spells tag text)
    (starts : tag.toList.head? = some first) : ∃ c rest, text = c :: rest ∧ c.toLower = first := by
  cases text with
  | nil =>
    rw [Spells, List.take_nil, List.map_nil] at spelled
    rw [← spelled] at starts
    contradiction
  | cons c rest =>
    refine ⟨c, rest, rfl, ?_⟩
    rw [← spelled] at starts
    cases size : tag.length with
    | zero => simp [size] at starts
    | succ n => simpa [size] using starts

theorem closingAlone {text : List Char} (closing : Spells "?>" text) (tag : String)
    (other : tag.toList.head? = some '<') : ¬ Spells tag text := by
  intro opening
  obtain ⟨c, rest, rfl, mark⟩ := spellsHead closing rfl
  obtain ⟨d, rest', same, mark'⟩ := spellsHead opening other
  obtain rfl := (List.cons.inj same).1
  rw [mark] at mark'
  contradiction

theorem tagIff {text : List Char} {n : Nat} : Tag text n ↔ 0 < n ∧ tagLength text = n := by
  unfold tagLength
  dsimp only
  constructor
  · intro tag
    have opens (tag : String) (other : tag.toList.head? = some '<') (opening : Spells tag text) :
        ¬ "?>".toList.isPrefixOf ((text.take "?>".length).map Char.toLower) = true :=
      fun closing => closingAlone (spellsIff.mp closing) tag other opening
    cases tag with
    | closing spelled => exact ⟨by decide, if_pos (spellsIff.mpr spelled)⟩
    | opening spelled => exact ⟨by decide, by rw [if_neg (opens _ rfl spelled), if_pos (spellsIff.mpr spelled)]⟩
    | short spelled other =>
      refine ⟨by decide, ?_⟩
      rw [if_neg (opens _ rfl spelled), if_neg (mt spellsIff.mp other), if_pos (spellsIff.mpr spelled)]
  · rintro ⟨some, size⟩
    split at size
    · rename_i spelled
      exact size ▸ .closing (spellsIff.mp spelled)
    · split at size
      · rename_i spelled
        exact size ▸ .opening (spellsIff.mp spelled)
      · rename_i other
        split at size
        · rename_i spelled
          exact size ▸ .short (spellsIff.mp spelled) (mt spellsIff.mpr other)
        · omega

theorem tagHere {text : List Char} (tag : 0 < tagLength text) : Tag text (tagLength text) :=
  tagIff.mpr ⟨tag, rfl⟩

def isTagMark (c : Char) : Bool := "<?ph>".toList.contains c.toLower

theorem Tag.marks {text : List Char} {n : Nat} (tag : Tag text n) : ∀ c ∈ text.take n, isTagMark c = true := by
  have inside (spelling : String) (marks : spelling.toList.all ("<?ph>".toList.contains ·) = true)
      (spelled : Spells spelling text) : ∀ c ∈ text.take spelling.length, isTagMark c = true := by
    intro c member
    exact List.all_eq_true.mp marks _ (spelled ▸ List.mem_map_of_mem member)
  cases tag with
  | closing spelled => exact inside "?>" rfl spelled
  | opening spelled => exact inside "<?php" rfl spelled
  | short spelled => exact inside "<?" rfl spelled

theorem Tag.head {c : Char} {rest : List Char} {n : Nat} (tag : Tag (c :: rest) n) :
    c.toLower = '?' ∨ c.toLower = '<' := by
  have first (spelling : String) (mark : Char) (starts : spelling.toList.head? = some mark)
      (spelled : Spells spelling (c :: rest)) : c.toLower = mark := by
    obtain ⟨d, rest', same, lower⟩ := spellsHead spelled starts
    exact (List.cons.inj same).1 ▸ lower
  cases tag with
  | closing spelled => exact .inl (first _ _ rfl spelled)
  | opening spelled => exact .inr (first _ _ rfl spelled)
  | short spelled => exact .inr (first _ _ rfl spelled)

theorem marksBehind {c : Char} {rest : List Char} {count : Nat} (some : 0 < count)
    (marks : ∀ d ∈ (c :: rest).take count, isTagMark d = true) :
    isTagMark c = true ∧ ∀ d ∈ rest.take (count - 1), isTagMark d = true := by
  obtain ⟨fewer, rfl⟩ : ∃ fewer, count = fewer + 1 := ⟨count - 1, by omega⟩
  exact List.forall_mem_cons.mp marks

theorem markPlain {c d : Char} (mark : isTagMark c = true) (plain : isTagMark d = false) : c ≠ d := by
  rintro rfl
  rw [mark] at plain
  contradiction

def opens? (before : List Char) (c : Char) : Option Char :=
  if c = '(' then some ')' else if c = '[' then some ']'
  else if c = '\x7b' ∧ opensExpression before = true then some '\x7d' else none

theorem opensSome {before : List Char} {c closer : Char} : opens? before c = some closer ↔
    c = '(' ∧ closer = ')' ∨ c = '[' ∧ closer = ']' ∨
      (c = '\x7b' ∧ opensExpression before = true) ∧ closer = '\x7d' := by
  unfold opens?
  grind

theorem opensVisible {before : List Char} {c closer : Char} (opens : opens? before c = some closer) :
    isBlank c = false := by
  rcases opensSome.mp opens with ⟨rfl, -⟩ | ⟨rfl, -⟩ | ⟨⟨rfl, -⟩, -⟩ <;> rfl

inductive Cutter.Reads (s : Cutter) (c : Char) (rest : List Char) : Cutter → Prop where
  | passes (passing : 0 < s.skip) : Reads s c rest { s.cut c with skip := s.skip - 1 }
  | opens {closer : Char} (still : s.skip = 0) (opener : opens? s.before c = some closer) :
      Reads s c rest { s.keep c with closers := closer :: s.closers }
  | closes {outer : List Char} (still : s.skip = 0) (plain : opens? s.before c = none)
      (innermost : s.closers = c :: outer) : Reads s c rest { s.keep c with closers := outer }
  | inside (still : s.skip = 0) (plain : opens? s.before c = none) (within : s.closers ≠ [])
      (other : s.closers.head? ≠ some c) : Reads s c rest (s.keep c)
  | tag (still : s.skip = 0) (plain : opens? s.before c = none) (closed : s.closers = [])
      (tag : 0 < tagLength (c :: rest)) : Reads s c rest { s.cut c with skip := tagLength (c :: rest) - 1 }
  | brace (still : s.skip = 0) (plain : opens? s.before c = none) (closed : s.closers = [])
      (brace : c = '\x7b' ∨ c = '\x7d') : Reads s c rest (s.cut c)
  | semicolon (still : s.skip = 0) (closed : s.closers = []) (semicolon : c = ';') :
      Reads s c rest { s.cut c with done := ⟨(c :: s.pending).reverse, s.start, s.offset⟩ :: s.done }
  | outside (still : s.skip = 0) (plain : opens? s.before c = none) (closed : s.closers = [])
      (free : tagLength (c :: rest) = 0) (other : c ≠ '\x7b' ∧ c ≠ '\x7d' ∧ c ≠ ';') : Reads s c rest (s.keep c)

theorem Cutter.reads (s : Cutter) (c : Char) (rest : List Char) : s.Reads c rest (s.step c rest) := by
  unfold Cutter.step
  split
  · exact .passes (by assumption)
  · rename_i still
    have still : s.skip = 0 := by omega
    split
    · rename_i round
      exact .opens still (opensSome.mpr (.inl ⟨beq_iff_eq.mp round, rfl⟩))
    · rename_i round
      split
      · rename_i square
        exact .opens still (opensSome.mpr (.inr (.inl ⟨beq_iff_eq.mp square, rfl⟩)))
      · rename_i square
        split
        · rename_i brace
          exact .opens still (opensSome.mpr (.inr (.inr ⟨by simpa using brace, rfl⟩)))
        · rename_i brace
          have plain : opens? s.before c = none := by simp_all [opens?]
          split
          · rename_i closer outer closers
            split
            · rename_i innermost
              exact .closes still plain (beq_iff_eq.mp innermost ▸ closers)
            · rename_i other
              refine .inside still plain (by simp [closers]) ?_
              rw [closers]
              exact fun same => other (beq_iff_eq.mpr (Option.some.inj same).symm)
          · rename_i closed
            dsimp only
            split
            · exact .tag still plain closed (by assumption)
            · rename_i free
              split
              · rename_i brace
                exact .brace still plain closed (by simpa using brace)
              · rename_i block
                split
                · rename_i semicolon
                  exact .semicolon still closed (beq_iff_eq.mp semicolon)
                · exact .outside still plain closed (by omega) (by simp_all)

inductive Cutter.Stepped (s : Cutter) (c : Char) (rest : List Char) : Cutter → Prop where
  | pass (passing : 0 < s.skip) : Stepped s c rest { s.cut c with skip := s.skip - 1 }
  | keep {closers : List Char} (still : s.skip = 0)
      (bracket : isBlank c = true → s.closers = [] → closers = []) :
      Stepped s c rest { s.keep c with closers }
  | tag (still : s.skip = 0) (closed : s.closers = []) (tag : 0 < tagLength (c :: rest)) :
      Stepped s c rest { s.cut c with skip := tagLength (c :: rest) - 1 }
  | brace (still : s.skip = 0) (closed : s.closers = []) (brace : c = '\x7b' ∨ c = '\x7d') :
      Stepped s c rest (s.cut c)
  | done (still : s.skip = 0) (closed : s.closers = []) (semicolon : c = ';') :
      Stepped s c rest { s.cut c with done := ⟨(c :: s.pending).reverse, s.start, s.offset⟩ :: s.done }

theorem Cutter.stepped (s : Cutter) (c : Char) (rest : List Char) : s.Stepped c rest (s.step c rest) := by
  generalize next : s.step c rest = s'
  cases next ▸ s.reads c rest with
  | passes passing => exact .pass passing
  | opens still opener => exact .keep still fun blank => absurd blank (by simp [opensVisible opener])
  | closes still _ innermost => exact .keep still fun _ none => by simp [innermost] at none
  | inside still => exact @Stepped.keep s c rest s.closers still fun _ none => none
  | tag still _ closed tag => exact .tag still closed tag
  | brace still _ closed brace => exact .brace still closed brace
  | semicolon still closed semicolon => exact .done still closed semicolon
  | outside still => exact @Stepped.keep s c rest s.closers still fun _ none => none

structure Cutter.Steady (s : Cutter) (rest : List Char) : Prop where
  offset : s.offset = s.before.length
  start : s.start ≤ s.offset
  pending : s.pending = s.before.take (s.offset - s.start)
  edge : s.start = 0 ∨ s.before.reverse[s.start - 1]? ≠ some '/'
  skip : ∀ c ∈ rest.take s.skip, isTagMark c = true
  done : ∀ g ∈ s.done, g.Lies s.before.reverse ∧ g.stop < s.start
  order : s.done.Pairwise (fun later earlier => earlier.stop < later.start)

theorem Cutter.keepSteady {s : Cutter} {c : Char} {rest : List Char} (steady : s.Steady (c :: rest))
    (closers : List Char) (skip : s.skip = 0) :
    Cutter.Steady { s.keep c with closers } rest := by
  have offset := steady.offset
  have start := steady.start
  refine ⟨by simp [keep, offset], by simp [keep]; omega, ?_, ?_, by simp [keep, skip], ?_,
    by simpa [keep] using steady.order⟩
  · have more : s.offset + 1 - s.start = (s.offset - s.start) + 1 := by omega
    simp only [keep, more, List.take_succ_cons, ← steady.pending]
  · rcases steady.edge with first | edge
    · exact Or.inl first
    · by_cases zero : s.start = 0
      · exact Or.inl zero
      · right
        simp only [keep, List.reverse_cons]
        rwa [List.getElem?_append_left (by simp; omega)]
  · intro g member
    have old := steady.done g (by simpa [keep] using member)
    exact ⟨by simpa [keep] using old.1.append [c], by simpa [keep] using old.2⟩

theorem Cutter.cutSteady {s : Cutter} {c : Char} {rest : List Char} (steady : s.Steady (c :: rest))
    (skip : Nat) (slash : c ≠ '/') (marks : ∀ d ∈ rest.take skip, isTagMark d = true) :
    Cutter.Steady { s.cut c with skip } rest := by
  have offset := steady.offset
  refine ⟨by simp [cut, offset], by simp [cut], by simp [cut], ?_, marks, ?_,
    by simpa [cut] using steady.order⟩
  · right
    simp only [cut, List.reverse_cons, Nat.add_sub_cancel, offset]
    simp [slash]
  · intro g member
    have old := steady.done g (by simpa [cut] using member)
    have start := steady.start
    refine ⟨by simpa [cut] using old.1.append [c], ?_⟩
    have := old.2
    simp only [cut]
    omega

theorem Cutter.pendingLies {s : Cutter} {c : Char} {rest : List Char}
    (steady : s.Steady (c :: rest)) :
    Segment.Lies (c :: s.before).reverse ⟨(c :: s.pending).reverse, s.start, s.offset⟩ := by
  have offset := steady.offset
  have start := steady.start
  refine ⟨start, by simp [offset], ?_, ?_⟩
  · have whole : (s.before.reverse ++ [c]).take (s.offset + 1) = s.before.reverse ++ [c] :=
      List.take_of_length_le (by simp [offset])
    simp only [List.reverse_cons, whole]
    rw [List.drop_append_of_le_length (by simp; omega), List.drop_reverse, ← offset,
      steady.pending]
  · rcases steady.edge with first | edge
    · exact Or.inl first
    · by_cases zero : s.start = 0
      · exact Or.inl zero
      · right
        simp only [List.reverse_cons]
        rwa [List.getElem?_append_left (by simp; omega)]

theorem Cutter.doneSteady {s : Cutter} {rest : List Char} (steady : s.Steady (';' :: rest))
    (skip : s.skip = 0) :
    Cutter.Steady { s.cut ';' with
      done := ⟨(';' :: s.pending).reverse, s.start, s.offset⟩ :: s.done } rest := by
  have next := Cutter.cutSteady steady 0 (by decide) (by simp)
  refine ⟨next.offset, next.start, next.pending, next.edge, by simp [cut, skip], ?_, ?_⟩
  · intro g member
    rcases List.mem_cons.mp member with rfl | old
    · exact ⟨by simpa [cut] using Cutter.pendingLies steady, by simp [cut]⟩
    · exact next.done g old
  · refine List.pairwise_cons.mpr ⟨?_, by simpa [cut] using steady.order⟩
    intro g member
    exact (steady.done g (by simpa [cut] using member)).2

theorem Cutter.stepSteady {s : Cutter} {c : Char} {rest : List Char}
    (steady : s.Steady (c :: rest)) : (s.step c rest).Steady rest := by
  generalize next : s.step c rest = s'
  cases next ▸ s.stepped c rest with
  | pass passing =>
    obtain ⟨mark, marks⟩ := marksBehind passing steady.skip
    exact Cutter.cutSteady steady _ (markPlain mark rfl) marks
  | keep still bracket => exact Cutter.keepSteady steady _ still
  | tag still closed tag =>
    obtain ⟨mark, marks⟩ := marksBehind tag (tagHere tag).marks
    exact Cutter.cutSteady steady _ (markPlain mark rfl) marks
  | brace still closed brace =>
    have slash : c ≠ '/' := by rcases brace with rfl | rfl <;> decide
    exact Cutter.cutSteady steady s.skip slash (by simp [still])
  | done still closed semicolon =>
    subst semicolon
    exact Cutter.doneSteady steady still

theorem Cutter.stepBefore (s : Cutter) (c : Char) (rest : List Char) :
    (s.step c rest).before = c :: s.before := by
  generalize next : s.step c rest = s'
  cases next ▸ s.stepped c rest <;> rfl

theorem Cutter.runLies {s : Cutter} {rest : List Char} (steady : s.Steady rest) :
    (∀ g ∈ s.run rest, g.Lies (s.before.reverse ++ rest)) ∧
      (s.run rest).Pairwise (fun a b => a.stop < b.start) := by
  induction rest generalizing s with
  | nil =>
    simp only [Cutter.run, List.append_nil]
    refine ⟨?_, List.pairwise_reverse.mpr steady.order⟩
    intro g member
    exact (steady.done g (by simpa using member)).1
  | cons c rest ih =>
    have next := ih (Cutter.stepSteady steady)
    rw [Cutter.stepBefore s c rest] at next
    simpa [Cutter.run] using next

theorem segmentsLie (code : List Char) : ∀ g ∈ segments code, g.Lies code := by
  have start : Cutter.Steady {} code := ⟨rfl, Nat.le_refl _, rfl, Or.inl rfl, by simp, by simp, by simp⟩
  simpa [segments] using (Cutter.runLies start).1

theorem segmentsFollow (code : List Char) :
    (segments code).Pairwise (fun a b => a.stop < b.start) := by
  have start : Cutter.Steady {} code := ⟨rfl, Nat.le_refl _, rfl, Or.inl rfl, by simp, by simp, by simp⟩
  exact (Cutter.runLies start).2

theorem mergeSublist (segs : List Segment) : ((merge segs).map Merged.segment).Sublist segs := by
  fun_induction merge segs with
  | case1 => exact List.Sublist.refl _
  | case2 segment rest _ ih => exact ih.cons _
  | case3 segment kind _ => exact List.Sublist.refl _
  | case4 segment kind _ following rest' _ ih => exact (ih.cons _).cons_cons _
  | case5 segment kind _ following rest' _ ih => exact ih.cons_cons _

theorem mergeKind (segs : List Segment) :
    ∀ m ∈ merge segs, kindOf? m.segment.text = some m.kind := by
  fun_induction merge segs with
  | case1 => simp
  | case2 segment rest _ ih => exact ih
  | case3 segment kind known => simpa using known
  | case4 segment kind known following rest' _ ih => simpa using ⟨known, ih⟩
  | case5 segment kind known following rest' _ ih =>
    intro m member
    rcases List.mem_cons.mp member with rfl | later
    · exact known
    · exact ih m later

theorem mergeMember {segs : List Segment} {m : Merged} (member : m ∈ merge segs) :
    m.segment ∈ segs :=
  (mergeSublist segs).subset (List.mem_map.mpr ⟨m, member, rfl⟩)

theorem kindLeads {text : List Char} {kind : Kind} (known : kindOf? text = some kind) :
    ∃ rest, dropToken? kind.token.toList (dropBlanks text) = some rest := by
  have leads : kind.leads text = true :=
    List.find?_some (p := fun kind : Kind => kind.leads text) known
  unfold Kind.leads at leads
  split at leads
  · exact ⟨_, by assumption⟩
  · contradiction

theorem tokenNotEmpty (kind : Kind) : ∃ t token, kind.token.toList = t :: token := by
  cases kind <;> exact ⟨_, _, rfl⟩

theorem kindStarts {text : List Char} {kind : Kind} (known : kindOf? text = some kind) :
    ∃ c rest, dropBlanks text = c :: rest := by
  obtain ⟨rest, dropped⟩ := kindLeads known
  obtain ⟨t, token, spelled⟩ := tokenNotEmpty kind
  rw [spelled] at dropped
  cases starts : dropBlanks text with
  | nil => simp [starts, dropToken?] at dropped
  | cons c rest => exact ⟨c, rest, rfl⟩

theorem visibleInside {code rest : List Char} {g : Segment} {c : Char} (lies : g.Lies code)
    (starts : dropBlanks g.text = c :: rest) : g.start ≤ g.leading ∧ g.leading ≤ g.stop := by
  have split := List.takeWhile_append_dropWhile (p := isBlank) (l := g.text)
  have lengths := congrArg List.length split
  rw [show g.text.dropWhile isBlank = c :: rest from starts] at lengths
  have whole := congrArg List.length lies.text
  have inside := lies.inside
  simp only [List.length_append, List.length_cons, List.length_drop, List.length_take] at lengths whole
  unfold Segment.leading
  omega

theorem leadingInside {code : List Char} {g : Segment} {kind : Kind} (lies : g.Lies code)
    (known : kindOf? g.text = some kind) : g.start ≤ g.leading ∧ g.leading ≤ g.stop := by
  obtain ⟨c, rest, starts⟩ := kindStarts known
  exact visibleInside lies starts

theorem leadingEdge {code : List Char} {g : Segment} {kind : Kind} (lies : g.Lies code)
    (known : kindOf? g.text = some kind) :
    g.leading = 0 ∨ code[g.leading - 1]? ≠ some '/' := by
  cases blanks : g.text.takeWhile isBlank with
  | nil => simpa [Segment.leading, blanks] using lies.edge
  | cons b bs =>
    right
    intro slash
    have bounds := leadingInside lies known
    have size : g.leading = g.start + (bs.length + 1) := by simp [Segment.leading, blanks]
    have here : g.text[bs.length]? = some '/' := by
      rw [lies.text, List.getElem?_drop, List.getElem?_take, if_pos (by omega)]
      rw [← slash]
      congr 1
      omega
    have blank : '/' ∈ g.text.takeWhile isBlank := by
      rw [← List.takeWhile_append_dropWhile (p := isBlank) (l := g.text),
        List.getElem?_append_left (by simp [blanks])] at here
      exact List.mem_of_getElem? here
    have isBlankSlash := List.mem_takeWhile_imp blank
    exact absurd isBlankSlash (by decide)

end DebugSweep.Lexis
