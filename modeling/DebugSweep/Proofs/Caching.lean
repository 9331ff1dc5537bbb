import DebugSweep.Proofs.Reloading

/-! The cache as a map. Main statement: after any changes, what is known of a path is what its last change
stored, for exactly that size and time, and the paths are listed in order, each once. -/
namespace DebugSweep.Cache

inductive Change where
  | store (path : String) (size mtime : Int) (findings : List Finding)
  | discard (path : String)
  | clear
  deriving DecidableEq, Repr

namespace Change

def touches (path : String) : Change → Bool
  | .store other .. => other == path
  | .discard other => other == path
  | .clear => true

def apply (c : Cache) : Change → Cache
  | .store path size mtime findings => c.store path size mtime findings
  | .discard path => c.discard path
  | .clear => c.clear

def left? : Change → Option CacheEntry
  | .store path size mtime findings => some ⟨path, size, mtime, fingerprint size mtime, findings⟩
  | _ => none

def last? (path : String) (changes : List Change) : Option Change := (changes.filter (touches path)).getLast?

variable {path : String} {changes : List Change} {change : Change}

theorem lastBehind : last? path (changes ++ [change]) =
    if change.touches path then some change else last? path changes := by
  unfold last?
  rw [List.filter_append]
  split
  · rename_i touched
    simp [touched]
  · rename_i apart
    simp [apart]

theorem lastTouches (last : last? path changes = some change) : change.touches path = true :=
  (List.mem_filter.mp (List.mem_of_getLast? last)).2

theorem entryStored {entry : CacheEntry} : change.left? = some entry ↔ ∃ path size mtime findings,
    change = .store path size mtime findings ∧ entry = ⟨path, size, mtime, fingerprint size mtime, findings⟩ := by
  cases change <;> simp [left?, eq_comm]

end Change

def after (changes : List Change) : Cache := changes.foldl Change.apply {}

theorem afterBehind (changes : List Change) (change : Change) :
    after (changes ++ [change]) = change.apply (after changes) := by
  simp [after]

variable {path : String} {changes : List Change}

theorem getApplied (c : Cache) (change : Change) (path : String) :
    (change.apply c).get? path = if change.touches path then change.left? else c.get? path := by
  cases change with
  | store other size mtime findings =>
    by_cases here : path = other
    · subst here
      simp [Change.apply, Change.touches, Change.left?, getStoreSame]
    · have apart : (other == path) = false := by simpa using Ne.symm here
      simp [Change.apply, Change.touches, apart, getStoreOther _ _ _ _ here]
  | discard other =>
    by_cases here : path = other
    · subst here
      simp [Change.apply, Change.touches, Change.left?, getDiscardSame]
    · have apart : (other == path) = false := by simpa using Ne.symm here
      simp [Change.apply, Change.touches, apart, getDiscardOther _ here]
  | clear => rfl

theorem getAfter (changes : List Change) (path : String) :
    (after changes).get? path = (Change.last? path changes).bind Change.left? := by
  induction changes using List.reverseRecOn with
  | nil => rfl
  | append_singleton changes change ih =>
    rw [afterBehind, getApplied, Change.lastBehind, ih]
    split <;> rfl

theorem discardOnce {c : Cache} (once : (c.entries.map CacheEntry.path).Nodup) (path : String) :
    ((c.discard path).entries.map CacheEntry.path).Nodup :=
  once.sublist (List.filter_sublist.map _)

theorem pathsOnce (changes : List Change) : ((after changes).entries.map CacheEntry.path).Nodup := by
  induction changes using List.reverseRecOn with
  | nil => exact List.nodup_nil
  | append_singleton changes change ih =>
    rw [afterBehind]
    cases change with
    | store path size mtime findings =>
      refine List.nodup_cons.mpr ⟨?_, discardOnce ih path⟩
      rintro member
      obtain ⟨entry, kept, same⟩ := List.mem_map.mp member
      have other := (List.mem_filter.mp kept).2
      simp [same] at other
    | discard path => exact discardOnce ih path
    | clear => exact List.nodup_nil

theorem pathKnown {c : Cache} : path ∈ c.paths ↔ ∃ entry, c.get? path = some entry := by
  rw [paths, List.mem_mergeSort, List.mem_map, ← Option.isSome_iff_exists, get?, List.find?_isSome]
  simp

theorem lookupIff {c : Cache} {mark : String} {findings : List Finding} : c.lookup? path mark = some findings ↔
    ∃ entry, c.get? path = some entry ∧ entry.mark = mark ∧ entry.findings = findings := by
  constructor
  · exact lookupGet
  · rintro ⟨entry, found, rfl, rfl⟩
    simp [lookup?, found]

theorem getStored {entry : CacheEntry} : (after changes).get? path = some entry ↔ ∃ size mtime findings,
    Change.last? path changes = some (.store path size mtime findings) ∧
      entry = ⟨path, size, mtime, fingerprint size mtime, findings⟩ := by
  rw [getAfter, Option.bind_eq_some_iff]
  constructor
  · rintro ⟨change, last, left⟩
    obtain ⟨other, size, mtime, findings, rfl, rfl⟩ := Change.entryStored.mp left
    obtain rfl : other = path := by simpa [Change.touches] using Change.lastTouches last
    exact ⟨size, mtime, findings, last, rfl⟩
  · rintro ⟨size, mtime, findings, last, rfl⟩
    exact ⟨_, last, rfl⟩

theorem lookupStored {size mtime : Int} {findings : List Finding} :
    (after changes).lookup? path (fingerprint size mtime) = some findings ↔
      Change.last? path changes = some (.store path size mtime findings) := by
  rw [lookupIff]
  constructor
  · rintro ⟨entry, found, mark, rfl⟩
    obtain ⟨size', mtime', findings, last, rfl⟩ := getStored.mp found
    obtain ⟨rfl, rfl⟩ := markInjective mark
    exact last
  · intro last
    exact ⟨_, getStored.mpr ⟨size, mtime, findings, last, rfl⟩, rfl, rfl⟩

theorem pathsSorted (changes : List Change) : (after changes).paths.Pairwise (· < ·) := by
  have order := sortedKeys (fun path : String => path) ((after changes).entries.map CacheEntry.path)
  have once : (after changes).paths.Nodup := (List.mergeSort_perm _ _).nodup_iff.mpr (pathsOnce changes)
  exact (order.and once).imp fun both => String.not_le.mp fun back => both.2 (String.le_antisymm both.1 back)

theorem cacheKeyed (changes : List Change) :
    (∀ path size mtime findings, (after changes).lookup? path (fingerprint size mtime) = some findings ↔
      Change.last? path changes = some (.store path size mtime findings)) ∧
    (after changes).paths.Pairwise (· < ·) ∧
    (∀ path, path ∈ (after changes).paths ↔
      ∃ size mtime findings, Change.last? path changes = some (.store path size mtime findings)) ∧
    (after changes).size = (after changes).paths.length := by
  refine ⟨fun path size mtime findings => lookupStored, pathsSorted changes, fun path => ?_, ?_⟩
  · rw [pathKnown]
    constructor
    · rintro ⟨entry, found⟩
      obtain ⟨size, mtime, findings, last, -⟩ := getStored.mp found
      exact ⟨size, mtime, findings, last⟩
    · rintro ⟨size, mtime, findings, last⟩
      exact ⟨_, getStored.mpr ⟨size, mtime, findings, last, rfl⟩⟩
  · rw [size, paths, List.length_mergeSort, List.length_map]

end DebugSweep.Cache
