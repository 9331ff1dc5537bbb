import DebugSweep.Proofs.Braces

/-! How candidates are folded into statements. Main statement: statements and their halts, read in order, are the
candidates of a kind, each halt stands right behind its statement, and a bare halt is a statement of its own only
where it has nothing to halt. -/
namespace DebugSweep.Lexis
open Text

def Merged.parts (m : Merged) : List Segment := m.segment :: m.halt.toList

def Merged.last (m : Merged) : Segment := m.halt.getD m.segment

theorem haltKind : ∀ token ∈ haltTokens, ∃ kind ∈ Kind.all, token = kind.token.toList := by
  decide

theorem haltBounded : ∀ kind ∈ Kind.all, kind.token.toList ∈ haltTokens → kind.follow = .boundary := by
  decide

theorem haltOnlyStarts {text : List Char} (only : isHaltOnly text = true) :
    ∃ token ∈ haltTokens, ∃ c rest, dropToken? token (dropBlanks text) = some (c :: rest) ∧ isWord c = false := by
  unfold isHaltOnly at only
  split at only
  · contradiction
  · rename_i rest dropped
    obtain ⟨token, listed, here⟩ := List.exists_of_findSome?_eq_some dropped
    cases rest with
    | nil => simp [dropBlanks, dropArgument] at only
    | cons c rest =>
      refine ⟨token, listed, c, rest, here, ?_⟩
      cases word : isWord c with
      | false => rfl
      | true =>
        have shown : isBlank c = false := by
          cases blank : isBlank c with
          | false => rfl
          | true => simp [blankNoWord blank] at word
        have still : dropBlanks (c :: rest) = c :: rest := List.dropWhile_cons_of_neg (by simp [shown])
        have round : c ≠ '(' := by rintro rfl; simp [isWord] at word
        have closed : c ≠ ';' := by rintro rfl; simp [isWord] at word
        rw [still, dropArgument, still] at only
        · simp_all
        · simp_all

theorem haltKnown {text : List Char} (only : isHaltOnly text = true) : (kindOf? text).isSome := by
  obtain ⟨token, listed, c, rest, dropped, ends⟩ := haltOnlyStarts only
  obtain ⟨kind, known, rfl⟩ := haltKind token listed
  have leads : kind.leads text = true := by
    have plain : startsInWord (c :: rest) = false := ends
    rw [Kind.leads, dropped, haltBounded kind known listed]
    exact (Bool.not_eq_eq_eq_not).mpr plain
  exact List.find?_isSome.mpr ⟨kind, known, leads⟩

section
variable {segment : Segment} {rest : List Segment}

theorem mergePlain (unknown : kindOf? segment.text = none) : merge (segment :: rest) = merge rest := by
  conv_lhs => unfold merge
  rw [unknown]

theorem mergeFolded {kind : Kind} {following : Segment} (known : kindOf? segment.text = some kind)
    (only : isHaltOnly following.text = true) :
    merge (segment :: following :: rest) = { segment, kind, halt := some following } :: merge rest := by
  conv_lhs => unfold merge
  rw [known]
  exact if_pos only

theorem mergeAlone {kind : Kind} (known : kindOf? segment.text = some kind)
    (other : ∀ following ∈ rest.head?, ¬ isHaltOnly following.text = true) :
    merge (segment :: rest) = { segment, kind } :: merge rest := by
  conv_lhs => unfold merge
  rw [known]
  cases rest with
  | nil => rw [merge]
  | cons following rest => exact if_neg (other following rfl)

end

theorem mergeNone {segs : List Segment} : merge segs = [] ↔ ∀ g ∈ segs, kindOf? g.text = none := by
  fun_induction merge segs <;> simp_all

theorem mergeFiltered (segs : List Segment) :
    (merge segs).flatMap Merged.parts = segs.filter (fun g => (kindOf? g.text).isSome) := by
  fun_induction merge segs with
  | case1 => rfl
  | case2 segment rest unknown ih => simp [unknown, ih]
  | case3 segment kind known => simp [Merged.parts, known]
  | case4 segment kind known following rest only ih =>
    have halt := haltKnown only
    simp [Merged.parts, known, halt, ih]
  | case5 segment kind known following rest other ih =>
    rw [List.flatMap_cons, ih]
    exact (List.filter_cons_of_pos (by simp [known])).symm

/-- A halt behind the candidate has nothing to halt: the candidate is of no kind, or it is a halt that is folded
into the last of the statements. -/
def Segment.Settled (g : Segment) (before : List Merged) : Prop :=
  kindOf? g.text = none ∨ ∃ m ∈ before.getLast?, m.halt = some g

theorem Segment.Settled.cons {g : Segment} {before : List Merged} (settled : g.Settled before) (m : Merged) :
    g.Settled (m :: before) := by
  rcases settled with unknown | ⟨last, ends, halt⟩
  · exact .inl unknown
  · exact .inr ⟨last, List.mem_getLast?_cons ends, halt⟩

structure Merged.Follows (m : Merged) (left : List Segment) (before : List Merged) : Prop where
  known : kindOf? m.segment.text = some m.kind
  halts : ∀ halt ∈ m.halt, isHaltOnly halt.text = true
  bare : isHaltOnly m.segment.text = true → ∀ g ∈ left.getLast?, g.Settled before

theorem mergeAround {segs : List Segment} {before after : List Merged} {m : Merged}
    (split : merge segs = before ++ m :: after) : ∃ left right, segs = left ++ (m.parts ++ right) ∧
      merge left = before ∧ merge right = after ∧ m.Follows left before := by
  fun_induction merge segs generalizing before with
  | case1 => simp at split
  | case2 segment rest unknown ih =>
    obtain ⟨left, right, rfl, folded, behind, follows⟩ := ih split
    refine ⟨segment :: left, right, rfl, (mergePlain unknown).trans folded, behind, follows.known, follows.halts, ?_⟩
    intro bare g last
    cases left with
    | nil =>
      obtain rfl : segment = g := Option.some.inj last
      exact .inl unknown
    | cons a left => exact follows.bare bare g last
  | case3 segment kind known =>
    obtain ⟨rfl, single⟩ | ⟨_, -, single⟩ := List.cons_eq_append_iff.mp split
    · obtain ⟨rfl, rfl⟩ := List.cons.inj single
      exact ⟨[], [], rfl, rfl, rfl, known, by simp, by simp⟩
    · simp at single
  | case4 segment kind known following rest only ih =>
    obtain ⟨rfl, single⟩ | ⟨earlier, rfl, later⟩ := List.cons_eq_append_iff.mp split
    · obtain ⟨rfl, rfl⟩ := List.cons.inj single
      exact ⟨[], rest, rfl, rfl, rfl, known, by simpa using only, by simp⟩
    · obtain ⟨left, right, rfl, folded, behind, follows⟩ := ih later
      refine ⟨segment :: following :: left, right, rfl, by rw [mergeFolded known only, folded], behind,
        follows.known, follows.halts, ?_⟩
      intro bare g last
      cases left with
      | nil =>
        obtain rfl : following = g := Option.some.inj last
        obtain rfl : [] = earlier := folded
        exact .inr ⟨_, rfl, rfl⟩
      | cons a left => exact (follows.bare bare g last).cons _
  | case5 segment kind known following rest other ih =>
    obtain ⟨rfl, single⟩ | ⟨earlier, rfl, later⟩ := List.cons_eq_append_iff.mp split
    · obtain ⟨rfl, rfl⟩ := List.cons.inj single
      exact ⟨[], following :: rest, rfl, rfl, rfl, known, by simp, by simp⟩
    · obtain ⟨left, right, parts, folded, behind, follows⟩ := ih later
      have apart : ∀ g ∈ left.head?, ¬ isHaltOnly g.text = true := by
        intro g first
        obtain ⟨left', rfl⟩ := List.head?_eq_some_iff.mp first
        obtain ⟨rfl, -⟩ := List.cons.inj parts
        exact other
      refine ⟨segment :: left, right, by rw [parts]; rfl, by rw [mergeAlone known apart, folded], behind,
        follows.known, follows.halts, ?_⟩
      intro bare g last
      cases left with
      | nil =>
        obtain ⟨rfl, -⟩ := List.cons.inj parts
        exact absurd bare other
      | cons a left => exact (follows.bare bare g last).cons _

theorem mergeParts {segs : List Segment} {m : Merged} {rest : List Merged} (merged : merge segs = m :: rest) :
    ∃ early late, segs = early ++ m.segment :: (m.halt.toList ++ late) ∧
      (∀ g ∈ early, kindOf? g.text = none) ∧ merge late = rest := by
  obtain ⟨early, late, parts, folded, behind, -⟩ := @mergeAround segs [] rest m merged
  exact ⟨early, late, parts, mergeNone.mp folded, behind⟩

section
variable {segs : List Segment} {m : Merged} (member : m ∈ merge segs)
include member

theorem mergeInside : ∃ early late, segs = early ++ m.segment :: (m.halt.toList ++ late) := by
  obtain ⟨before, after, split⟩ := List.append_of_mem member
  obtain ⟨early, late, parts, -⟩ := mergeAround split
  exact ⟨early, late, parts⟩

theorem mergeHalts {halt : Segment} (halts : m.halt = some halt) : isHaltOnly halt.text = true := by
  obtain ⟨before, after, split⟩ := List.append_of_mem member
  obtain ⟨_, _, -, -, -, follows⟩ := mergeAround split
  exact follows.halts halt halts

theorem mergeLast : m.last ∈ segs := by
  obtain ⟨early, late, rfl⟩ := mergeInside member
  unfold Merged.last
  cases m.halt <;> simp

end

theorem mergeFollow {segs : List Segment} (follow : segs.Pairwise (fun a b => a.stop < b.start)) :
    (merge segs).Pairwise (fun a b => a.last.stop < b.segment.start) := by
  fun_induction merge segs with
  | case1 => exact List.Pairwise.nil
  | case2 segment segs unknown ih => exact ih (List.pairwise_cons.mp follow).2
  | case3 segment kind known => exact List.pairwise_singleton _ _
  | case4 segment kind known following segs halts ih =>
    obtain ⟨first, later⟩ := List.pairwise_cons.mp (List.pairwise_cons.mp follow).2
    refine List.pairwise_cons.mpr ⟨?_, ih later⟩
    exact fun m member => first m.segment (mergeMember member)
  | case5 segment kind known following segs other ih =>
    obtain ⟨first, later⟩ := List.pairwise_cons.mp follow
    refine List.pairwise_cons.mpr ⟨?_, ih later⟩
    exact fun m member => first m.segment (mergeMember member)

theorem mergeOrder {segs : List Segment} (order : ∀ g ∈ segs, g.start ≤ g.stop)
    (follow : segs.Pairwise (fun a b => a.stop < b.start)) {m : Merged} (member : m ∈ merge segs) :
    m.segment.stop ≤ m.last.stop := by
  have sized := order m.last (mergeLast member)
  obtain ⟨early, late, rfl⟩ := mergeInside member
  unfold Merged.last at sized ⊢
  cases halt : m.halt with
  | none => exact Nat.le_refl _
  | some last =>
    rw [halt] at follow sized
    have next := (List.pairwise_cons.mp (List.pairwise_append.mp follow).2.1).1 last (by simp)
    exact Nat.le_trans (Nat.le_of_lt next) sized

theorem foldedExactly (segs : List Segment) :
    (merge segs).flatMap Merged.parts = segs.filter (fun g => (kindOf? g.text).isSome) ∧
      ∀ before m after, merge segs = before ++ m :: after →
        ∃ left right, segs = left ++ (m.parts ++ right) ∧ merge left = before ∧ merge right = after ∧
          m.Follows left before :=
  ⟨mergeFiltered segs, fun _ _ _ split => mergeAround split⟩

def haltChain : List Segment := segments "dd($a); exit; die(1) ; exit; $b; exit;".toList

theorem haltChainFolded :
    (merge haltChain).map (fun m => (m.kind, m.halt.isSome)) = [(.dd, true), (.die, true), (.exit, false)] ∧
      ∃ before m, merge haltChain = before ++ [m] ∧ isHaltOnly m.segment.text = true ∧
        ∃ left right, haltChain = left ++ (m.parts ++ right) ∧ ∀ g ∈ left.getLast?, g.Settled before := by
  have folded : (merge haltChain).map (fun m => (m.kind, m.halt.isSome)) =
      [(.dd, true), (.die, true), (.exit, false)] := by decide +kernel
  have last : merge haltChain = (merge haltChain).dropLast ++ [⟨⟨" exit;".toList, 32, 37⟩, .exit, none⟩] := by
    decide +kernel
  have bare : isHaltOnly " exit;".toList = true := by decide +kernel
  obtain ⟨left, right, parts, -, -, follows⟩ := (foldedExactly haltChain).2 _ _ _ last
  exact ⟨folded, _, _, last, bare, left, right, parts, follows.bare bare⟩

end DebugSweep.Lexis
