import DebugSweep.Path.Resolve
import DebugSweep.Proofs.Pieces

/-! Places and their texts. Main statements: a place whose names can be names of files is the one that
its text leads to, and a path leads from such a place to such a place. -/
namespace DebugSweep

def properName (name : String) : Bool :=
  name != "" && name != "." && name != ".." && !name.toList.contains '/' &&
    !name.toList.contains (Char.ofNat 0)

namespace AbsPath

def Proper (p : AbsPath) : Prop := ∀ name ∈ p.names, properName name = true

instance (p : AbsPath) : Decidable p.Proper := inferInstanceAs (Decidable (∀ name ∈ p.names, _))

theorem properParts {name : String} (proper : properName name = true) :
    name ≠ "" ∧ name ≠ "." ∧ name ≠ ".." ∧ '/' ∉ name.toList ∧ Char.ofNat 0 ∉ name.toList := by
  simpa [properName, and_assoc] using proper

theorem Proper.child {p : AbsPath} {name : String} (proper : p.Proper) (named : properName name = true) :
    (p.child name).Proper := by
  intro other member
  rcases List.mem_append.mp member with old | new
  · exact proper other old
  · rwa [List.mem_singleton.mp new]

theorem textChars (p : AbsPath) :
    p.text.toList = '/' :: List.intercalate ['/'] (p.names.map String.toList) := by
  rw [text, String.toList_append, String.toList_intercalate]
  rfl

theorem Proper.written {p : AbsPath} (proper : p.Proper) : Written.ofText p.text = ⟨"/", p.names⟩ := by
  unfold Written.ofText
  rw [textChars]
  cases named : p.names with
  | nil => rfl
  | cons first rest =>
    have slashes : ∀ name ∈ (first :: rest).map String.toList, '/' ∉ name := by
      intro name member
      obtain ⟨whole, inside, rfl⟩ := List.mem_map.mp member
      exact (properParts (proper whole (named ▸ inside))).2.2.2.1
    have parts : (('/' :: List.intercalate ['/'] ((first :: rest).map String.toList)).splitOn '/') =
        [] :: (first :: rest).map String.toList := by
      rw [List.splitOn_cons_eq_if_modifyHead, if_pos (by simp)]
      rw [List.splitOn_intercalate '/' slashes (by simp)]
    have kept : ∀ name ∈ first :: rest, (name != "" && name != ".") = true := by
      intro name inside
      obtain ⟨some, dot, _⟩ := properParts (proper name (named ▸ inside))
      simp [some, dot]
    obtain ⟨c, more, spelled⟩ : ∃ c more, first.toList = c :: more := by
      have some := (properParts (proper first (by simp [named]))).1
      cases letters : first.toList with
      | nil => exact absurd (String.toList_eq_nil_iff.mp letters) some
      | cons c more => exact ⟨c, more, rfl⟩
    have plain : c ≠ '/' := by
      rintro rfl
      exact slashes first.toList (by simp) (by simp [spelled])
    have root : Written.rootOf ('/' :: List.intercalate ['/'] ((first :: rest).map String.toList)) = "/" := by
      obtain ⟨tail, starts⟩ : ∃ tail, List.intercalate ['/'] ((first :: rest).map String.toList) =
          c :: tail := by
        cases rest with
        | nil => exact ⟨more, by simp [spelled]⟩
        | cons second others => exact ⟨_, by simp [spelled]; rfl⟩
      rw [starts]
      unfold Written.rootOf
      split <;> simp_all
    have names : (([] :: (first :: rest).map String.toList).map String.ofList).filter
        (fun name => name != "" && name != ".") = first :: rest := by
      have whole : ((first :: rest).map String.toList).map String.ofList = first :: rest := by simp
      rw [List.map_cons, whole, List.filter_cons_of_neg (by simp), List.filter_eq_self.mpr kept]
    dsimp only
    rw [parts, root, names]

theorem Proper.textInjective {p q : AbsPath} (left : p.Proper) (right : q.Proper)
    (same : p.text = q.text) : p = q := by
  have written := congrArg Written.ofText same
  rw [left.written, right.written] at written
  cases p
  cases q
  exact congrArg AbsPath.mk (Written.mk.inj written).2

theorem enterNames {names place : List String} (plain : ".." ∉ names) :
    names.foldl Written.enter place = names.reverse ++ place := by
  induction names generalizing place with
  | nil => rfl
  | cons name rest ih =>
    have other : name ≠ ".." := fun same => plain (same ▸ List.mem_cons_self)
    have fewer : ".." ∉ rest := fun member => plain (List.mem_cons_of_mem _ member)
    simp [Written.enter, other, ih fewer]

theorem Proper.leads {p : AbsPath} (proper : p.Proper) (here : AbsPath) :
    (Written.ofText p.text).placeFrom here = p := by
  have plain : ".." ∉ p.names := fun member => (properParts (proper _ member)).2.2.1 rfl
  rw [proper.written]
  cases p
  simp [Written.placeFrom, enterNames plain]

theorem Proper.noNull {p : AbsPath} (proper : p.Proper) : (Written.ofText p.text).hasNull = false := by
  rw [proper.written]
  apply List.any_eq_false.mpr
  intro name member
  have free := (properParts (proper name member)).2.2.2.2
  simpa using free

theorem Proper.resolved {p here : AbsPath} (proper : p.Proper) : Path.resolve here p.text = .ok p := by
  simp [Path.resolve, proper.noNull, proper.leads here]

end AbsPath

namespace Path

theorem writtenNames {s name : String} (member : name ∈ (Written.ofText s).names) :
    name ≠ "" ∧ name ≠ "." ∧ '/' ∉ name.toList := by
  obtain ⟨inside, kept⟩ := List.mem_filter.mp member
  obtain ⟨chars, piece, rfl⟩ := List.mem_map.mp inside
  simp only [Bool.and_eq_true, bne_iff_ne, ne_eq] at kept
  refine ⟨kept.1, kept.2, ?_⟩
  rw [String.toList_ofList]
  exact splitFree piece

theorem enterProper {names place : List String} (known : ∀ name ∈ place, properName name = true)
    (new : ∀ name ∈ names, name ≠ ".." → properName name = true) :
    ∀ name ∈ names.foldl Written.enter place, properName name = true := by
  induction names generalizing place with
  | nil => exact known
  | cons name rest ih =>
    apply ih
    · intro other member
      unfold Written.enter at member
      split at member
      · exact known other (List.mem_of_mem_drop member)
      · rename_i plain
        rcases List.mem_cons.mp member with rfl | old
        · exact new other List.mem_cons_self (by simpa using plain)
        · exact known other old
    · exact fun other member => new other (List.mem_cons_of_mem _ member)

theorem resolveProper {here p : AbsPath} {s : String} (proper : here.Proper)
    (resolved : resolve here s = .ok p) : p.Proper := by
  unfold resolve at resolved
  dsimp only at resolved
  split at resolved
  · contradiction
  · rename_i noNull
    cases resolved
    intro name member
    refine enterProper ?_ ?_ name (List.mem_reverse.mp member)
    · split
      · exact fun other inside => proper other (List.mem_reverse.mp inside)
      · simp
    · intro other inside plain
      obtain ⟨some, dot, slash⟩ := writtenNames inside
      have free : Char.ofNat 0 ∉ other.toList := by
        intro null
        exact noNull (List.any_eq_true.mpr ⟨other, inside, by simpa using null⟩)
      simp [properName, some, dot, plain, slash, free]

end Path
end DebugSweep
