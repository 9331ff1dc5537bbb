import DebugSweep.Proofs.Folding
import Mathlib.Data.List.Induction
import Mathlib.Data.List.Infix

/-! Code that is left when statements are taken out of a line of code. Main statement: no debug statement
is recognised in what is left, if tags are read as before where a statement is taken out. -/
namespace DebugSweep.Lexis
open Text

/-- Where the scanner stands behind a text, given what follows it. -/
def Cutter.through (s : Cutter) (rest : List Char) : List Char → Cutter
  | [] => s
  | c :: text => (s.step c (text ++ rest)).through rest text

structure Cutter.Fresh (s : Cutter) : Prop where
  closers : s.closers = []
  skip : s.skip = 0
  pending : allBlank s.pending = true
  before : Neutral s.before

structure Cutter.Tidy (s : Cutter) (rest : List Char) : Prop where
  closed : allBlank s.pending = true → s.closers = []
  passing : 0 < s.skip → s.pending = []
  edge : ∃ edge, s.before = s.pending ++ edge ∧ Neutral ((rest.take s.skip).reverse ++ edge)

theorem Cutter.Tidy.step {s : Cutter} {c : Char} {rest : List Char} (tidy : s.Tidy (c :: rest)) :
    (s.step c rest).Tidy rest := by
  obtain ⟨edge, split, neutral⟩ := tidy.edge
  generalize next : s.step c rest = s'
  cases next ▸ s.stepped c rest with
  | pass passing =>
    have none := tidy.passing passing
    have closed := tidy.closed (by rw [none]; rfl)
    refine ⟨fun _ => closed, fun _ => rfl, c :: s.before, rfl, ?_⟩
    obtain ⟨skip, count⟩ : ∃ skip, s.skip = skip + 1 := ⟨s.skip - 1, by omega⟩
    rw [count, List.take_succ_cons, List.reverse_cons, List.append_assoc] at neutral
    rw [split, none]
    simpa [cut, count] using neutral
  | keep still bracket =>
    refine ⟨?_, fun passing => ?_, edge, ?_, ?_⟩
    · intro blank
      have both : isBlank c = true ∧ allBlank s.pending = true := by simpa [Cutter.keep, allBlank] using blank
      exact bracket both.1 (tidy.closed both.2)
    · simp [Cutter.keep, still] at passing
    · simp [Cutter.keep, split]
    · simpa [Cutter.keep, still] using neutral
  | tag still closed tag =>
    refine ⟨fun _ => closed, fun _ => rfl, c :: s.before, rfl, ?_⟩
    have whole := tagNeutral tag s.before
    obtain ⟨size, count⟩ : ∃ size, tagLength (c :: rest) = size + 1 := ⟨_, (Nat.sub_add_cancel tag).symm⟩
    rw [count, List.take_succ_cons, List.reverse_cons, List.append_assoc] at whole
    simpa [cut, count] using whole
  | brace still closed brace =>
    refine ⟨fun _ => closed, fun _ => rfl, c :: s.before, rfl, ?_⟩
    simpa [cut, still] using cutNeutral (.inr brace) s.before
  | done still closed semicolon =>
    refine ⟨fun _ => closed, fun _ => rfl, c :: s.before, rfl, ?_⟩
    simpa [cut, still] using cutNeutral (.inl semicolon) s.before

theorem Cutter.Tidy.fresh {s : Cutter} {rest : List Char} (tidy : s.Tidy rest) (still : s.skip = 0)
    (blank : allBlank s.pending = true) : s.Fresh := by
  obtain ⟨edge, split, neutral⟩ := tidy.edge
  rw [still, List.take_zero, List.reverse_nil, List.nil_append] at neutral
  exact ⟨tidy.closed blank, still, blank, split ▸ (blanksNeutral blank).append neutral⟩

theorem Cutter.Fresh.tidy {s : Cutter} (fresh : s.Fresh) (rest : List Char) (edge : s.pending = []) : s.Tidy rest := by
  refine ⟨fun _ => fresh.closers, fun passing => ?_, s.before, by rw [edge]; rfl, ?_⟩
  · rw [fresh.skip] at passing
    contradiction
  · simpa [fresh.skip] using fresh.before

theorem Cutter.throughAppend (s : Cutter) (rest left right : List Char) :
    s.through rest (left ++ right) = (s.through (right ++ rest) left).through rest right := by
  induction left generalizing s with
  | nil => rfl
  | cons c left ih => simp only [List.cons_append, Cutter.through, ih, List.append_assoc]

theorem Cutter.runThrough (s : Cutter) (text rest : List Char) :
    s.run (text ++ rest) = (s.through rest text).run rest := by
  induction text generalizing s with
  | nil => rfl
  | cons c text ih => exact ih _

theorem Cutter.Tidy.through {s : Cutter} {text rest : List Char} (tidy : s.Tidy (text ++ rest)) :
    (s.through rest text).Tidy rest := by
  induction text generalizing s with
  | nil => exact tidy
  | cons c text ih => exact ih tidy.step

theorem Cutter.throughOffset (s : Cutter) (rest text : List Char) :
    (s.through rest text).offset = s.offset + text.length := by
  induction text generalizing s with
  | nil => rfl
  | cons c text ih =>
    have next : (s.step c (text ++ rest)).offset = s.offset + 1 := by
      generalize here : s.step c (text ++ rest) = s'
      cases here ▸ s.stepped c (text ++ rest) <;> rfl
    rw [Cutter.through, ih, next, List.length_cons]
    omega

theorem Cutter.runAdds (s : Cutter) (text : List Char) : ∃ new, s.run text = s.done.reverse ++ new := by
  induction text generalizing s with
  | nil => exact ⟨[], by rw [Cutter.run, List.append_nil]⟩
  | cons c text ih =>
    obtain ⟨new, runs⟩ := ih (s.step c text)
    rw [Cutter.run, runs]
    generalize next : s.step c text = s'
    cases next ▸ s.stepped c text with
    | done still closed semicolon => exact ⟨⟨(c :: s.pending).reverse, s.start, s.offset⟩ :: new, by simp⟩
    | _ => exact ⟨new, rfl⟩

/-- Two scanners that have cut off the same kinds of candidates and will go on to do so. What is
pending differs in leading blanks only. -/
structure Cutter.Alike (old old' : List Segment) (s s' : Cutter) : Prop where
  closers : s.closers = s'.closers
  skip : s.skip = s'.skip
  before : ∀ near, opensExpression (near ++ s.before) = opensExpression (near ++ s'.before)
  pending : ∃ shared front front', s.pending = shared ++ front ∧ s'.pending = shared ++ front' ∧
    allBlank front = true ∧ allBlank front' = true
  done : ∃ new new', s.done = new ++ old ∧ s'.done = new' ++ old' ∧
    new.map (kindOf? ·.text) = new'.map (kindOf? ·.text)

theorem kindBehindBlanks {front : List Char} (blank : allBlank front = true) (text : List Char) :
    kindOf? (front ++ text) = kindOf? text := by
  have same : dropBlanks (front ++ text) = dropBlanks text :=
    List.dropWhile_append_of_pos (List.all_eq_true.mp blank)
  unfold kindOf? Kind.leads
  rw [same]

theorem Cutter.Alike.keep {old old' : List Segment} {s s' : Cutter} (alike : s.Alike old old' s')
    (c : Char) (closers : List Char) :
    Cutter.Alike old old' { s.keep c with closers } { s'.keep c with closers } := by
  obtain ⟨shared, front, front', left, right, blanks⟩ := alike.pending
  refine ⟨rfl, alike.skip, ?_, ⟨c :: shared, front, front', ?_, ?_, blanks⟩, alike.done⟩
  · intro near
    simpa [Cutter.keep] using alike.before (near ++ [c])
  · simp [Cutter.keep, left]
  · simp [Cutter.keep, right]

theorem Cutter.Alike.cut {old old' : List Segment} {s s' : Cutter} (alike : s.Alike old old' s')
    (c : Char) (skip : Nat) :
    Cutter.Alike old old' { s.cut c with skip } { s'.cut c with skip } := by
  refine ⟨alike.closers, rfl, ?_, ⟨[], [], [], rfl, rfl, rfl, rfl⟩, alike.done⟩
  intro near
  simpa [Cutter.cut] using alike.before (near ++ [c])

theorem Cutter.Alike.finish {old old' : List Segment} {s s' : Cutter} (alike : s.Alike old old' s')
    (c : Char) :
    Cutter.Alike old old'
      { s.cut c with done := ⟨(c :: s.pending).reverse, s.start, s.offset⟩ :: s.done }
      { s'.cut c with done := ⟨(c :: s'.pending).reverse, s'.start, s'.offset⟩ :: s'.done } := by
  obtain ⟨shared, front, front', left, right, blank, blank'⟩ := alike.pending
  obtain ⟨new, new', done, done', kinds⟩ := alike.done
  have same : kindOf? (c :: s.pending).reverse = kindOf? (c :: s'.pending).reverse := by
    have turned : allBlank front.reverse = true := by rwa [allBlank, List.all_reverse]
    have turned' : allBlank front'.reverse = true := by rwa [allBlank, List.all_reverse]
    rw [left, right, ← List.cons_append, ← List.cons_append, List.reverse_append, List.reverse_append,
      kindBehindBlanks turned, kindBehindBlanks turned']
  have behind := alike.cut c s.skip
  refine ⟨alike.closers, alike.skip, behind.before, behind.pending,
    ⟨(c :: s.pending).reverse, s.start, s.offset⟩ :: new,
    ⟨(c :: s'.pending).reverse, s'.start, s'.offset⟩ :: new', by simp [done], by simp [done'], ?_⟩
  rw [List.map_cons, List.map_cons, same, kinds]

theorem Cutter.Alike.step {old old' : List Segment} {s s' : Cutter} (alike : s.Alike old old' s')
    {c : Char} {rest rest' : List Char} (tags : tagLength (c :: rest) = tagLength (c :: rest')) :
    (s.step c rest).Alike old old' (s'.step c rest') := by
  have expression : opensExpression s.before = opensExpression s'.before := alike.before []
  have keeps := alike.keep c s.closers
  have cuts := alike.cut c s.skip
  unfold Cutter.step
  rw [← alike.skip, ← expression, ← alike.closers, ← tags]
  split
  · exact alike.cut c _
  · split
    · exact alike.keep c _
    · split
      · exact alike.keep c _
      · split
        · exact alike.keep c _
        · split
          · split
            · exact alike.keep c _
            · simpa [Cutter.keep, alike.closers] using keeps
          · dsimp only
            split
            · exact alike.cut c _
            · split
              · simpa [Cutter.cut, alike.skip] using cuts
              · split
                · exact alike.finish c
                · simpa [Cutter.keep, alike.closers] using keeps

theorem Cutter.Alike.through {old old' : List Segment} {s s' : Cutter} (alike : s.Alike old old' s')
    {text rest rest' : List Char}
    (tags : ∀ part ∈ text.tails, part ≠ [] → tagLength (part ++ rest) = tagLength (part ++ rest')) :
    (s.through rest text).Alike old old' (s'.through rest' text) := by
  induction text generalizing s s' with
  | nil => exact alike
  | cons c text ih =>
    apply ih
    · exact alike.step (tags (c :: text) (by simp) (by simp))
    · exact fun part member => tags part (by simp [member])

theorem Cutter.Fresh.alike {s s' : Cutter} (fresh : s.Fresh) (fresh' : s'.Fresh) :
    s.Alike s.done s'.done s' := by
  refine ⟨fresh.closers.trans fresh'.closers.symm, fresh.skip.trans fresh'.skip.symm, ?_,
    ⟨[], s.pending, s'.pending, rfl, rfl, fresh.pending, fresh'.pending⟩, [], [], rfl, rfl, rfl⟩
  intro near
  rw [fresh.before, fresh'.before]

theorem Cutter.Alike.fresh {old old' : List Segment} {s s' : Cutter} (alike : s.Alike old old' s')
    (fresh : s.Fresh) : s'.Fresh := by
  obtain ⟨shared, front, front', left, right, blank, blank'⟩ := alike.pending
  refine ⟨alike.closers ▸ fresh.closers, alike.skip ▸ fresh.skip, ?_, ?_⟩
  · have all := fresh.pending
    rw [left, allBlank, List.all_append, Bool.and_eq_true] at all
    rw [right, allBlank, List.all_append, Bool.and_eq_true]
    exact ⟨all.1, blank'⟩
  · intro near
    rw [← alike.before, fresh.before]

theorem Cutter.startFresh : Cutter.Fresh {} := ⟨rfl, rfl, rfl, fun near => by rw [List.append_nil]⟩

/-- No statement is recognised in the text, wherever a candidate starts with it. -/
def Quiet (text : List Char) : Prop :=
  ∀ s : Cutter, s.Fresh → ∀ g ∈ s.run text, g ∈ s.done ∨ kindOf? g.text = none

theorem quietSegments {code : List Char} (quiet : Quiet code) : ∀ g ∈ segments code, kindOf? g.text = none := by
  intro g member
  simpa using quiet {} Cutter.startFresh g member

theorem Cutter.Alike.quiet {s s' : Cutter} {old old' new : List Segment} (alike : s.Alike old old' s')
    (done : s.done = new ++ old) (plain : ∀ g ∈ new, kindOf? g.text = none) :
    ∀ g ∈ s'.done, g ∈ old' ∨ kindOf? g.text = none := by
  obtain ⟨known, new', split, split', kinds⟩ := alike.done
  obtain rfl : known = new := List.append_cancel_right (split.symm.trans done)
  intro g member
  rw [split', List.mem_append] at member
  rcases member with fresh | earlier
  · have here : kindOf? g.text ∈ new'.map (kindOf? ·.text) := List.mem_map_of_mem fresh
    rw [← kinds] at here
    obtain ⟨g', inside, same⟩ := List.mem_map.mp here
    exact .inr (same ▸ plain g' inside)
  · exact .inl earlier

theorem quietWhole {s : Cutter} {text : List Char} {new : List Segment} (fresh : s.Fresh)
    (runs : s.run text = s.done.reverse ++ new) (plain : ∀ g ∈ new, kindOf? g.text = none) : Quiet text := by
  have ends : ∀ s : Cutter, s.run text = (s.through [] text).done.reverse := by
    intro s
    have whole := s.runThrough text []
    rwa [List.append_nil] at whole
  intro s' fresh' g member
  have alike := @Cutter.Alike.through _ _ _ _ (fresh.alike fresh') text [] [] (fun _ _ _ => rfl)
  have done : (s.through [] text).done = new.reverse ++ s.done := by
    rw [ends] at runs
    simpa using congrArg List.reverse runs
  rw [ends, List.mem_reverse] at member
  exact alike.quiet done (by simpa using plain) g member

theorem quietBehind {s : Cutter} {text rest rest' : List Char} {new : List Segment} (fresh : s.Fresh)
    (still : (s.through rest text).Fresh) (done : (s.through rest text).done = new ++ s.done)
    (plain : ∀ g ∈ new, kindOf? g.text = none) (quiet : Quiet rest')
    (tags : ∀ part ∈ text.tails, part ≠ [] → tagLength (part ++ rest) = tagLength (part ++ rest')) :
    Quiet (text ++ rest') := by
  intro s' fresh' g member
  have alike := (fresh.alike fresh').through tags
  rw [s'.runThrough] at member
  rcases quiet _ (alike.fresh still) g member with earlier | unknown
  · exact alike.quiet done plain g earlier
  · exact .inr unknown

def Cutter.finish (s : Cutter) : Cutter :=
  { s.cut ';' with done := ⟨(';' :: s.pending).reverse, s.start, s.offset⟩ :: s.done }

def Cutter.CutsOff (s : Cutter) (text : List Char) (early : List Segment) (g : Segment)
    (late : List Segment) : Prop :=
  ∃ u v, text = u ++ ';' :: v ∧ (s.through (';' :: v) u).skip = 0 ∧
    (s.through (';' :: v) u).closers = [] ∧
    (s.through (';' :: v) u).finish.done = g :: (early.reverse ++ s.done) ∧
    (s.through (';' :: v) u).finish.run v = (s.through (';' :: v) u).finish.done.reverse ++ late

theorem Cutter.CutsOff.behind {s : Cutter} {c : Char} {text : List Char} {g : Segment}
    {early early' late : List Segment} (cuts : (s.step c text).CutsOff text early' g late)
    (same : early'.reverse ++ (s.step c text).done = early.reverse ++ s.done) :
    s.CutsOff (c :: text) early g late := by
  obtain ⟨u, v, rfl, still, closed, done, runs⟩ := cuts
  exact ⟨c :: u, v, rfl, still, closed, same ▸ done, runs⟩

theorem Cutter.cutsOff {s : Cutter} {text : List Char} {g : Segment} {early late : List Segment}
    (runs : s.run text = s.done.reverse ++ (early ++ g :: late)) : s.CutsOff text early g late := by
  induction text generalizing s early with
  | nil => simp [Cutter.run] at runs
  | cons c text ih =>
    rw [Cutter.run] at runs
    have behind := fun early' => @Cutter.CutsOff.behind s c text g early early' late
    generalize next : s.step c text = s' at runs behind
    cases next ▸ s.stepped c text with
    | done still closed semicolon =>
      subst semicolon
      obtain ⟨new, adds⟩ := Cutter.runAdds s.finish text
      have split := adds.symm.trans runs
      simp only [Cutter.finish, List.reverse_cons, List.append_assoc, List.append_cancel_left_eq,
        List.singleton_append] at split
      cases early with
      | nil =>
        rw [List.nil_append, List.cons.injEq] at split
        obtain ⟨rfl, rfl⟩ := split
        exact ⟨[], text, rfl, still, closed, by simp [Cutter.through, Cutter.finish], adds⟩
      | cons first early =>
        rw [List.cons_append, List.cons.injEq] at split
        obtain ⟨rfl, rfl⟩ := split
        exact behind early (ih adds) (by simp)
    | _ => exact behind early (ih runs) rfl

theorem Cutter.rewind {s : Cutter} {early late rest : List Char}
    (pending : late.length ≤ (s.through rest (early ++ late)).pending.length)
    (still : (s.through rest (early ++ late)).skip = 0) :
    (s.through (late ++ rest) early).pending = (s.through rest (early ++ late)).pending.drop late.length ∧
      (s.through (late ++ rest) early).skip = 0 ∧
      (s.through (late ++ rest) early).done = (s.through rest (early ++ late)).done := by
  induction late using List.reverseRecOn generalizing rest with
  | nil => simpa using still
  | append_singleton late c ih =>
    have last : s.through rest (early ++ (late ++ [c])) =
        (s.through (c :: rest) (early ++ late)).step c rest := by
      rw [← List.append_assoc, Cutter.throughAppend]
      rfl
    rw [last] at pending still ⊢
    generalize next : (s.through (c :: rest) (early ++ late)).step c rest = s' at pending still ⊢
    rw [List.length_append, List.length_singleton] at pending
    cases next ▸ Cutter.stepped (s.through (c :: rest) (early ++ late)) c rest with
    | keep calm bracket =>
      obtain ⟨pending', still', done'⟩ := ih (by simpa [Cutter.keep] using pending) calm
      rw [List.append_assoc, List.singleton_append]
      refine ⟨?_, still', done'⟩
      rw [pending', List.length_append]
      rfl
    | _ => simp [Cutter.cut] at pending

def Merged.extent (m : Merged) : Nat × Nat := (m.segment.leading, m.last.stop + 1)

def cutOut {α : Type} (items : List α) (start : Nat) : List (Nat × Nat) → List α
  | [] => items.drop start
  | (first, behind) :: rest => (items.take first).drop start ++ cutOut items behind rest

/-- Where statements are cut out of code, tags before them are read as they are with the statements
in place. -/
def TagsKept (code : List Char) : List Merged → Prop
  | [] => True
  | m :: rest =>
      (∀ part ∈ (code.take m.segment.leading).tails, part ≠ [] →
        tagLength (part ++ code.drop m.segment.leading) =
          tagLength (part ++ cutOut code (m.last.stop + 1) (rest.map Merged.extent))) ∧
      TagsKept code rest

instance (code : List Char) : (ms : List Merged) → Decidable (TagsKept code ms)
  | [] => inferInstanceAs (Decidable True)
  | m :: rest =>
      have : Decidable (TagsKept code rest) := instDecidableTagsKept code rest
      inferInstanceAs (Decidable ((∀ part ∈ (code.take m.segment.leading).tails, _) ∧ TagsKept code rest))

structure Cutter.Begins (s : Cutter) : Prop where
  fresh : s.Fresh
  edge : s.pending = []
  start : s.start = s.offset

theorem Cutter.finishBegins {s : Cutter} (still : s.skip = 0) (closed : s.closers = []) : s.finish.Begins :=
  ⟨⟨closed, still, rfl, cutNeutral (.inl rfl) s.before⟩, rfl, rfl⟩

theorem Cutter.pendingBehind (s : Cutter) (rest text : List Char) :
    (s.through rest text).pending <+: text.reverse ++ s.pending := by
  induction text generalizing s with
  | nil => exact List.prefix_rfl
  | cons c text ih =>
    have next : (s.step c (text ++ rest)).pending <+: c :: s.pending := by
      generalize here : s.step c (text ++ rest) = s'
      cases here ▸ s.stepped c (text ++ rest) with
      | keep still bracket => exact List.prefix_rfl
      | _ => exact List.nil_prefix
    rw [List.reverse_cons, List.append_assoc, List.singleton_append]
    exact (ih _).trans ((List.prefix_append_right_inj _).mpr next)

theorem Cutter.throughLevel {s : Cutter} (level : s.start + s.pending.length = s.offset) (rest text : List Char) :
    (s.through rest text).start + (s.through rest text).pending.length = (s.through rest text).offset := by
  induction text generalizing s with
  | nil => exact level
  | cons c text ih =>
    apply ih
    generalize here : s.step c (text ++ rest) = s'
    cases here ▸ s.stepped c (text ++ rest) with
    | keep still bracket =>
      simp only [Cutter.keep, List.length_cons]
      omega
    | _ => rfl

theorem Cutter.Begins.around {s : Cutter} {text : List Char} {g : Segment} {early late : List Segment}
    (begins : s.Begins) (cuts : s.CutsOff text early g late) :
    ∃ u v w, text = u ++ (v ++ ';' :: w) ∧ g.leading = s.offset + u.length ∧
      (s.through (v ++ ';' :: w) u).Fresh ∧
      (s.through (v ++ ';' :: w) u).done = early.reverse ++ s.done ∧
      (s.through (';' :: w) (u ++ v)).finish.Begins ∧
      (s.through (';' :: w) (u ++ v)).finish.offset = g.stop + 1 ∧
      (s.through (';' :: w) (u ++ v)).finish.run w =
        (s.through (';' :: w) (u ++ v)).finish.done.reverse ++ late := by
  obtain ⟨front, w, rfl, still, closed, done, runs⟩ := cuts
  obtain ⟨rfl, earlier⟩ := List.cons.inj done
  have level := s.throughLevel (by rw [begins.edge, begins.start]; rfl) (';' :: w) front
  obtain ⟨prior, split⟩ := s.pendingBehind (';' :: w) front
  rw [begins.edge, List.append_nil] at split
  have parts := List.takeWhile_append_dropWhile (p := isBlank) (l := (s.through (';' :: w) front).pending.reverse)
  generalize blanks : (s.through (';' :: w) front).pending.reverse.takeWhile isBlank = blank at parts
  generalize (s.through (';' :: w) front).pending.reverse.dropWhile isBlank = v at parts
  have whole : front = (prior.reverse ++ blank) ++ v := by
    rw [List.append_assoc, parts, ← List.reverse_append, split, List.reverse_reverse]
  have pending : (s.through (';' :: w) front).pending = v.reverse ++ blank.reverse := by
    rw [← List.reverse_append, parts, List.reverse_reverse]
  have allBlanks : allBlank blank.reverse = true := by
    rw [allBlank, List.all_reverse, ← blanks]
    exact List.all_takeWhile
  have leading : ((';' :: (s.through (';' :: w) front).pending).reverse.takeWhile isBlank).length =
      blank.length := by
    rw [List.reverse_cons, List.takeWhile_append, blanks]
    split
    · rename_i same
      simpa [isBlank] using same.symm
    · rfl
  have offset := s.throughOffset (';' :: w) front
  have sizes := congrArg List.length whole
  have width := congrArg List.length pending
  simp only [List.length_append, List.length_reverse] at sizes width
  subst whole
  obtain ⟨before, calm, same⟩ := @Cutter.rewind s _ v (';' :: w) (by omega) still
  refine ⟨prior.reverse ++ blank, v, w, by simp, ?_, ?_, same.trans earlier,
    Cutter.finishBegins still closed, rfl, runs⟩
  · rw [Segment.leading, leading]
    simp only [List.length_append, List.length_reverse]
    omega
  · refine Cutter.Tidy.fresh (begins.fresh.tidy _ begins.edge).through calm ?_
    rw [before, pending]
    simpa using allBlanks

theorem Cutter.Begins.next {s : Cutter} {code : List Char} {g : Segment} {early late : List Segment}
    (begins : s.Begins) (runs : s.run (code.drop s.offset) = s.done.reverse ++ (early ++ g :: late)) :
    ∃ s' : Cutter, s'.Begins ∧ s'.offset = g.stop + 1 ∧
      s'.run (code.drop s'.offset) = s'.done.reverse ++ late := by
  obtain ⟨u, v, w, split, _, _, _, begins', offset, runs'⟩ := begins.around (Cutter.cutsOff runs)
  refine ⟨_, begins', offset, ?_⟩
  have behind : code.drop (s.through (';' :: w) (u ++ v)).finish.offset = w := by
    have place : (s.through (';' :: w) (u ++ v)).finish.offset = s.offset + (u.length + v.length + 1) := by
      show (s.through (';' :: w) (u ++ v)).offset + 1 = _
      rw [Cutter.throughOffset, List.length_append]
      omega
    rw [place, ← List.drop_drop, split, ← List.append_assoc, ← List.length_append, ← List.drop_drop,
      List.drop_left]
    rfl
  rw [behind]
  exact runs'

theorem Cutter.Begins.behind {s : Cutter} {code : List Char} {m : Merged} {early late : List Segment}
    (begins : s.Begins) (runs : s.run (code.drop s.offset) =
      s.done.reverse ++ (early ++ m.segment :: (m.halt.toList ++ late))) :
    ∃ s' : Cutter, s'.Begins ∧ s'.offset = m.last.stop + 1 ∧
      s'.run (code.drop s'.offset) = s'.done.reverse ++ late := by
  obtain ⟨s', begins', offset, runs'⟩ := begins.next runs
  unfold Merged.last
  cases halt : m.halt with
  | none =>
    rw [halt] at runs'
    exact ⟨s', begins', offset, runs'⟩
  | some last =>
    rw [halt] at runs'
    exact @Cutter.Begins.next s' code last [] late begins' runs'

-- The induction is on the statements. Before the first of them the scanner of what is left stays
-- alike to the scanner of the whole, and where it is cut out both are fresh.
theorem quietLeft {code : List Char} {s : Cutter} {segs : List Segment} {ms : List Merged} (begins : s.Begins)
    (runs : s.run (code.drop s.offset) = s.done.reverse ++ segs) (merged : merge segs = ms)
    (tags : TagsKept code ms) : Quiet (cutOut code s.offset (ms.map Merged.extent)) := by
  induction ms generalizing s segs with
  | nil => exact quietWhole begins.fresh runs (mergeNone.mp merged)
  | cons m rest ih =>
    obtain ⟨early, late, rfl, plain, same⟩ := mergeParts merged
    obtain ⟨u, v, w, split, leading, fresh, done, _⟩ := begins.around (Cutter.cutsOff runs)
    obtain ⟨s', begins', offset, runs'⟩ := begins.behind runs
    have quiet := ih begins' runs' same tags.2
    rw [offset] at quiet
    have front : (code.take m.segment.leading).drop s.offset = u := by
      rw [List.drop_take, split, leading, Nat.add_sub_cancel_left, List.take_left]
    have back : code.drop m.segment.leading = v ++ ';' :: w := by
      rw [leading, ← List.drop_drop, split, List.drop_left]
    have kept := tags.1
    rw [back] at kept
    rw [List.map_cons, Merged.extent, cutOut, front]
    refine quietBehind begins.fresh fresh done (by simpa using plain) quiet ?_
    intro part member
    rw [← front] at member
    rw [List.mem_tails] at member
    exact kept part ((List.mem_tails _ _).mpr (member.trans (List.drop_suffix _ _)))

theorem residueQuiet {code : List Char} (tags : TagsKept code (merge (segments code))) :
    ∀ g ∈ segments (cutOut code 0 ((merge (segments code)).map Merged.extent)), kindOf? g.text = none := by
  have start : Cutter.Begins {} := ⟨Cutter.startFresh, rfl, rfl⟩
  have runs : Cutter.run {} (code.drop 0) = [].reverse ++ segments code := rfl
  exact quietSegments (quietLeft start runs rfl tags)

end DebugSweep.Lexis
