import DebugSweep.Proofs.DumpLines
import DebugSweep.Proofs.Spans

/-! The quick test of a line's code. Main statement: the statements that it can hide stand directly behind a
closing tag or a long opening one; wherever another one stands, the line is looked at closely. -/
namespace DebugSweep.Lexis
open Text

def TagBefore (before : List Char) : Prop :=
  (before.drop (before.length - 2)).map Char.toLower = "?>".toList ∨
    (before.drop (before.length - 5)).map Char.toLower = "<?php".toList

instance (before : List Char) : Decidable (TagBefore before) := inferInstanceAs (Decidable (_ ∨ _))

theorem lastBehind (c : Char) (front : List Char) (before : Option Char) :
    (c :: front).getLast?.or before = front.getLast?.or (some c) := by
  rw [List.getLast?_cons]
  cases front.getLast? <;> rfl

theorem mentionsIff {before : Option Char} {code : List Char} : mentions before code = true ↔
    ∃ front rest, code = front ++ rest ∧ tokenHere rest = true ∧
      (front.getLast?.or before).any bindsToken = false := by
  induction code generalizing before with
  | nil =>
    have none : tokenHere [] = false := by decide +kernel
    constructor
    · exact fun mentioned => by contradiction
    · rintro ⟨front, rest, parts, here, -⟩
      obtain ⟨rfl, rfl⟩ := List.append_eq_nil_iff.mp parts.symm
      rw [none] at here
      contradiction
  | cons c code ih =>
    rw [mentions, Bool.or_eq_true, Bool.and_eq_true, Bool.not_eq_true', ih]
    constructor
    · rintro (⟨free, here⟩ | ⟨front, rest, rfl, here, free⟩)
      · exact ⟨[], c :: code, rfl, here, free⟩
      · exact ⟨c :: front, rest, rfl, here, by rwa [lastBehind]⟩
    · rintro ⟨front, rest, parts, here, free⟩
      cases front with
      | nil =>
        obtain rfl : rest = c :: code := parts.symm
        exact .inl ⟨free, here⟩
      | cons d front =>
        obtain ⟨rfl, rfl⟩ := List.cons.inj parts
        exact .inr ⟨front, rest, rfl, here, by rwa [lastBehind] at free⟩

theorem dropTokenPlain {token text rest : List Char} {c : Char} (dropped : dropToken? token text = some rest)
    (plain : token.all (fun t => !sameLetter t c) = true) (inside : c ∈ text) : c ∈ rest := by
  induction token generalizing text with
  | nil =>
    cases dropped
    exact inside
  | cons t token ih =>
    cases text with
    | nil => contradiction
    | cons d text =>
      rw [List.all_cons, Bool.and_eq_true] at plain
      rw [dropToken?] at dropped
      split at dropped
      · rename_i same
        rcases List.mem_cons.mp inside with rfl | later
        · simp [same] at plain
        · exact ih dropped plain.2 later
      · contradiction

theorem frontFree {token front : List Char} {c : Char}
    (again : ∀ rest, dropToken? token (front ++ rest) = some rest)
    (plain : token.all (fun t => !sameLetter t c) = true) : c ∉ front := by
  intro inside
  have alone := again []
  rw [List.append_nil] at alone
  exact absurd (dropTokenPlain alone plain inside) List.not_mem_nil

theorem followEnds {follow : Kind.Follow} {rest : List Char} (holds : follow.holds rest = true) :
    startsInWord rest = false := by
  cases rest with
  | nil => rfl
  | cons c rest =>
    cases follow with
    | call =>
      cases blank : isBlank c with
      | true => exact blankNoWord blank
      | false =>
        have still : dropBlanks (c :: rest) = c :: rest := List.dropWhile_cons_of_neg (by simp [blank])
        simp only [Kind.Follow.holds, still] at holds
        obtain rfl : c = '(' := by simpa using holds
        rfl
    | blank => exact blankNoWord holds
    | boundary => simpa [Kind.Follow.holds] using holds

theorem tokenPlain (kind : Kind) : kind.token.toList.all (fun t => !sameLetter t ';') = true := by
  cases kind <;> decide +kernel

theorem segmentStarts {code token rest : List Char} {g : Segment} (member : g ∈ segments code)
    (dropped : dropToken? token (dropBlanks g.text) = some rest)
    (plain : token.all (fun t => !sameLetter t ';') = true) :
    ∃ front, dropBlanks g.text = front ++ rest ∧ code.drop g.leading = front ++ (rest ++ code.drop (g.stop + 1)) ∧
      front.length = token.length ∧ (∀ rest', dropToken? token (front ++ rest') = some rest') ∧
      ';' ∉ front ∧ ';' ∈ rest := by
  have lies := segmentsLie code g member
  obtain ⟨front, text, size, again⟩ := tokenPrefix dropped
  have semicolon : ';' ∈ g.text := by
    rw [lies.text]
    apply List.mem_of_getElem? (i := g.stop - g.start)
    have order := lies.order
    rw [List.getElem?_drop, List.getElem?_take, if_pos (by omega), Nat.add_sub_cancel' order, segmentEnds member]
  have visible : ';' ∈ dropBlanks g.text := by
    rw [← List.takeWhile_append_dropWhile (p := isBlank) (l := g.text)] at semicolon
    refine (List.mem_append.mp semicolon).resolve_left fun blank => ?_
    exact absurd (List.mem_takeWhile_imp blank) (by decide)
  refine ⟨front, text, ?_, size, again, frontFree again plain, dropTokenPlain dropped plain visible⟩
  rw [leadingText lies, text, List.append_assoc]

theorem statementStarts {code : List Char} {m : Merged} (member : m ∈ merge (segments code)) :
    ∃ front rest, code.drop m.segment.leading = front ++ rest ∧ front.length = m.kind.token.toList.length ∧
      (∀ rest', dropToken? m.kind.token.toList (front ++ rest') = some rest') ∧ ';' ∉ front ∧ ';' ∈ rest ∧
      startsInWord rest = false := by
  have leads : m.kind.leads m.segment.text = true :=
    List.find?_some (p := fun kind : Kind => kind.leads m.segment.text) (mergeKind _ m member)
  unfold Kind.leads at leads
  split at leads
  · rename_i rest dropped
    obtain ⟨front, -, starts, size, again, plain, behind⟩ :=
      segmentStarts (mergeMember member) dropped (tokenPlain m.kind)
    refine ⟨front, _, starts, size, again, plain, List.mem_append_left _ behind, ?_⟩
    cases rest with
    | nil => contradiction
    | cons c rest => simpa [startsInWord] using followEnds leads
  · contradiction

theorem statementMentioned {code : List Char} {m : Merged} (member : m ∈ merge (segments code)) :
    tokenHere (code.drop m.segment.leading) = true := by
  obtain ⟨front, rest, starts, -, again, -, -, ends⟩ := statementStarts member
  refine List.any_eq_true.mpr ⟨m.kind, ?_, ?_⟩
  · cases m.kind <;> decide
  · rw [starts, again, Option.any_some, ends]
    rfl

theorem lowerSmall {c d : Char} (small : d.toNat < 128) (same : c.toLower = d) : lowerChar c = d := by
  unfold lowerChar
  split
  · exact same
  · rename_i large
    have still : c.toLower = c := by
      unfold Char.toLower
      rw [dif_neg]
      rintro ⟨-, capital⟩
      have last : c.val.toNat ≤ 90 := UInt32.le_iff_toNat_le.mp capital
      exact large (Nat.lt_of_le_of_lt last (by decide))
    rw [← still, same] at large
    exact absurd small large

theorem TagBefore.binds {before : List Char} (tag : TagBefore before) : before.getLast?.any bindsToken = true := by
  have ends : ∀ (k : Nat) (front : List Char) (d : Char), (before.drop k).map Char.toLower = front ++ [d] →
      d.toNat < 128 → (∀ c, lowerChar c = d → bindsToken c = true) → before.getLast?.any bindsToken = true := by
    intro k front d spelled small binds
    have last := congrArg List.getLast? spelled
    rw [List.getLast?_map, List.getLast?_append, List.getLast?_singleton, Option.some_or] at last
    obtain ⟨c, final, lower⟩ := Option.map_eq_some_iff.mp last
    have whole : before.getLast? = some c := by
      rw [List.getLast?_drop] at final
      split at final
      · contradiction
      · exact final
    rw [whole]
    exact binds c (lowerSmall small lower)
  rcases tag with closing | opening
  · exact ends _ ['?'] '>' closing (by decide) (fun c lower => by simp [bindsToken, lower])
  · exact ends _ "<?ph".toList 'p' opening (by decide) (fun c lower => by simp [bindsToken, lower])

theorem Edge.binds {before : List Char} (edge : Edge before) (binds : before.head?.any bindsToken = true) :
    TagBefore before.reverse := by
  cases edge with
  | start => contradiction
  | mark mark more => rcases mark with rfl | rfl | rfl <;> contradiction
  | @tag tag spelled more =>
    have ends : ∀ k, tag.length = k →
        (tag.reverse ++ more).reverse.drop ((tag.reverse ++ more).reverse.length - k) = tag := by
      rintro k rfl
      simp
    simp only [List.mem_cons, List.not_mem_nil, or_false] at spelled
    rcases spelled with closing | opening | short
    · left
      rw [ends 2 (by simpa using congrArg List.length closing), closing]
    · right
      rw [ends 5 (by simpa using congrArg List.length opening), opening]
    · obtain ⟨first, _, rfl, -, last, _, rfl, lower, none⟩ : ∃ first rest, tag = first :: rest ∧
          first.toLower = '<' ∧ ∃ last more, rest = last :: more ∧ last.toLower = '?' ∧ more.map Char.toLower = [] := by
        simpa only [List.map_eq_cons_iff] using (show tag.map Char.toLower = ['<', '?'] from short)
      obtain rfl := List.map_eq_nil_iff.mp none
      obtain rfl := lowerPlain (by decide) lower
      contradiction

theorem blanksUnbound {code : List Char} {g : Segment} (lies : g.Lies code) (blanks : g.start < g.leading)
    (last : g.leading ≤ g.stop) : (code.take g.leading).getLast?.any bindsToken = false := by
  have inside := lies.inside
  have size : g.leading - 1 < code.length := by omega
  rw [List.getLast?_take, if_neg (by omega), List.getElem?_eq_getElem size, Option.some_or, Option.any_some]
  exact blankUnbound (blankBefore lies (by omega) (by omega) (List.getElem?_eq_getElem size))

theorem boundIff {code : List Char} {m : Merged} (member : m ∈ merge (segments code)) :
    (code.take m.segment.leading).getLast?.any bindsToken = true ↔ TagBefore (code.take m.segment.leading) := by
  refine ⟨fun binds => ?_, TagBefore.binds⟩
  have cutOut := mergeMember member
  have lies := segmentsLie code m.segment cutOut
  obtain ⟨first, last⟩ := leadingInside lies (mergeKind _ m member)
  by_cases blanks : m.segment.start = m.segment.leading
  · rw [← blanks] at binds ⊢
    have edge := (segmentEdge cutOut).binds (by rwa [List.head?_reverse])
    rwa [List.reverse_reverse] at edge
  · rw [blanksUnbound lies (by omega) last] at binds
    contradiction

theorem quietIff {code : List Char} : mentionsToken code = false ↔
    ∀ front rest, code = front ++ rest → tokenHere rest = true → front.getLast?.any bindsToken = true := by
  rw [← Bool.not_eq_true, mentionsToken, mentionsIff]
  constructor
  · intro quiet front rest parts here
    by_contra free
    exact quiet ⟨front, rest, parts, here, by simpa using free⟩
  · rintro bound ⟨front, rest, parts, here, free⟩
    rw [Option.or_none, bound front rest parts here] at free
    contradiction

theorem hiddenBehindTag {code : List Char} (quiet : mentionsToken code = false) :
    ∀ m ∈ merge (segments code), TagBefore (code.take m.segment.leading) := fun _ member =>
  (boundIff member).mp (quietIff.mp quiet _ _ (List.take_append_drop _ _).symm (statementMentioned member))

end DebugSweep.Lexis

namespace DebugSweep.Scan
open Lexis Text

def lineClosely (origin : Origin) (number : Int) (state : LineState) (raw : List Char) : List Finding × LineState :=
  let line := dropEnd '\r' raw
  let code := codeOf line state
  ((merge (segments code.text)).filterMap (finding? origin number line code), code.exit)

theorem quickTestHides (code : List Char) (origin : Origin) (number : Int) (state : LineState) (raw : List Char) :
    (∀ m ∈ merge (segments code), tokenHere (code.drop m.segment.leading) = true ∧
      ((code.take m.segment.leading).getLast?.any bindsToken = true ↔ TagBefore (code.take m.segment.leading))) ∧
    (mentionsToken code = false ↔ ∀ front rest, code = front ++ rest → tokenHere rest = true →
      front.getLast?.any bindsToken = true) ∧
    (mentionsToken code = false → ∀ m ∈ merge (segments code), TagBefore (code.take m.segment.leading)) ∧
    (line origin number state raw ≠ lineClosely origin number state raw →
      merge (segments (codeOf (dropEnd '\r' raw) state).text) ≠ [] ∧
      ∀ m ∈ merge (segments (codeOf (dropEnd '\r' raw) state).text),
        TagBefore ((codeOf (dropEnd '\r' raw) state).text.take m.segment.leading)) := by
  refine ⟨fun m member => ⟨statementMentioned member, boundIff member⟩, quietIff, hiddenBehindTag, fun differs => ?_⟩
  unfold line lineClosely at differs
  dsimp only at differs
  split at differs
  · contradiction
  · rename_i quiet
    exact ⟨fun none => differs (by rw [none]; rfl), hiddenBehindTag (by simpa using quiet)⟩

-- The last character of a tag is taken for a part of the statement's name.
theorem tagHidesStatement :
    mentionsToken "?>echo 1;".toList = false ∧ merge (segments "?>echo 1;".toList) ≠ [] ∧
    mentionsToken "<?phpecho 1;".toList = false ∧ merge (segments "<?phpecho 1;".toList) ≠ [] ∧
    line ⟨"/w/a.php", "a.php"⟩ 1 {} "?>echo 1;".toList ≠ lineClosely ⟨"/w/a.php", "a.php"⟩ 1 {} "?>echo 1;".toList := by
  refine ⟨by decide +kernel, by decide +kernel, by decide +kernel, by decide +kernel, ?_⟩
  have found : (line ⟨"/w/a.php", "a.php"⟩ 1 {} "?>echo 1;".toList).1.length = 0 ∧
      (lineClosely ⟨"/w/a.php", "a.php"⟩ 1 {} "?>echo 1;".toList).1.length = 1 := by decide +kernel
  intro same
  rw [same] at found
  omega

end DebugSweep.Scan
