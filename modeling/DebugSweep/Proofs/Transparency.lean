import DebugSweep.Proofs.Frame
import DebugSweep.Proofs.Scanning

/-! Scans with a cache against scans without. Main statement: whatever happens to the files between
calls, scanning a file gives the findings of its present content, or fails as it would with nothing
cached, if no file changes without a change of its size or time. -/
namespace DebugSweep

theorem digitsInjective {a b : Nat} (same : Nat.toDigits 10 a = Nat.toDigits 10 b) : a = b := by
  have values := congrArg (fun digits => Nat.ofDigitChars 10 digits 0) same
  simpa using values

theorem digitsFree {c : Char} (noDigit : c.isDigit = false) (n : Nat) : c ∉ Nat.toDigits 10 n := by
  intro member
  rw [Nat.isDigit_of_mem_toDigits (by decide) (by decide) member] at noDigit
  contradiction

theorem digitsFirst (n : Nat) (rest : List Char) :
    (Nat.toDigits 10 n ++ '-' :: rest).takeWhile (· != '-') = Nat.toDigits 10 n := by
  rw [List.takeWhile_append_of_pos]
  · simp
  · intro c member
    have other : c ≠ '-' := fun same => digitsFree rfl n (same ▸ member)
    simpa using other

theorem natText (n : Nat) : (toString (n : Int)).toList = Nat.toDigits 10 n := Nat.toList_repr

theorem negativeText (n : Nat) :
    (toString (Int.negSucc n)).toList = '-' :: Nat.toDigits 10 (n + 1) := by
  change ("-" ++ Nat.repr (n + 1)).toList = _
  rw [String.toList_append, Nat.toList_repr]
  rfl

theorem intFree {c : Char} (noDigit : c.isDigit = false) (noSign : c ≠ '-') (n : Int) :
    c ∉ (toString n).toList := by
  cases n with
  | ofNat n =>
    change c ∉ (toString (n : Int)).toList
    rw [natText]
    exact digitsFree noDigit n
  | negSucc n =>
    rw [negativeText]
    simpa [noSign] using digitsFree noDigit (n + 1)

theorem digitsSplit {a b : Nat} {rest rest' : List Char}
    (same : Nat.toDigits 10 a ++ '-' :: rest = Nat.toDigits 10 b ++ '-' :: rest') : a = b ∧ rest = rest' := by
  have digits := congrArg (List.takeWhile (· != '-')) same
  rw [digitsFirst, digitsFirst] at digits
  rw [digits] at same
  exact ⟨digitsInjective digits, (List.cons.inj (List.append_cancel_left same)).2⟩

-- The sign of the second number is not taken for the end of the first.
theorem intTextSplit {a b : Int} {rest rest' : List Char}
    (same : (toString a).toList ++ '-' :: rest = (toString b).toList ++ '-' :: rest') : a = b ∧ rest = rest' := by
  have signless (n : Nat) (front back : List Char) : Nat.toDigits 10 n ++ front ≠ '-' :: back := by
    intro signed
    cases digits : Nat.toDigits 10 n with
    | nil => exact absurd digits Nat.toDigits_ne_nil
    | cons c more =>
      rw [digits] at signed
      obtain ⟨rfl, -⟩ := List.cons.inj signed
      exact digitsFree rfl n (digits ▸ List.mem_cons_self)
  cases a with
  | ofNat m =>
    cases b with
    | ofNat n =>
      obtain ⟨rfl, tails⟩ := digitsSplit (natText m ▸ natText n ▸ same)
      exact ⟨rfl, tails⟩
    | negSucc n =>
      rw [negativeText] at same
      exact absurd (natText m ▸ same) (signless m _ _)
  | negSucc m =>
    cases b with
    | ofNat n =>
      rw [negativeText] at same
      exact absurd (natText n ▸ same.symm) (signless n _ _)
    | negSucc n =>
      rw [negativeText, negativeText] at same
      obtain ⟨next, tails⟩ := digitsSplit (List.cons.inj same).2
      exact ⟨by rw [Nat.succ.inj next], tails⟩

theorem intTextInjective {a b : Int} (same : (toString a).toList = (toString b).toList) : a = b :=
  (intTextSplit (congrArg (· ++ ['-']) same)).1

theorem markInjective {a b x y : Int} (same : fingerprint a x = fingerprint b y) : a = b ∧ x = y := by
  have chars := congrArg String.toList same
  simp only [fingerprint, String.toList_append, List.append_assoc] at chars
  obtain ⟨sizes, times⟩ := intTextSplit chars
  exact ⟨sizes, intTextInjective times⟩

theorem fingerprintInjective {a b : Nat} {x y : Int} (same : fingerprint a x = fingerprint b y) :
    a = b ∧ x = y :=
  ⟨Int.ofNat.inj (markInjective same).1, (markInjective same).2⟩

namespace Engine

def statOf? (d : Disk) (p : AbsPath) : Option FileStat :=
  match d.get? p with
  | some (.file content mtime) => some ⟨content.size, mtime⟩
  | some .dir => some ⟨4096, 0⟩
  | some (.special mtime) => some ⟨0, mtime⟩
  | none => none

def contentOf? (d : Disk) (p : AbsPath) : Option ByteArray :=
  match d.get? p with
  | some (.file content _) => some content
  | _ => none

def findingsOf (settings : Settings) (p : AbsPath) (content : ByteArray) : List Finding :=
  Scan.text ⟨p.text, relativePath { settings } ⟨[]⟩ p.text⟩ (Source.textOf content)

/-- In all these states of the files, a path with the same size and time has the same content. -/
def Faithful (disks : List Disk) : Prop :=
  ∀ a ∈ disks, ∀ b ∈ disks, ∀ p q : AbsPath, p.text = q.text → statOf? a p = statOf? b q →
    contentOf? a p = contentOf? b q

structure Sound (settings : Settings) (disks : List Disk) (cache : Cache) : Prop where
  entry : ∀ entry ∈ cache.entries, ∃ d ∈ disks, ∃ p stat content, entry.path = p.text ∧
    statOf? d p = some stat ∧ entry.mark = fingerprint stat.size stat.mtime ∧
    contentOf? d p = some content ∧ entry.findings = findingsOf settings p content

theorem Sound.discard {settings : Settings} {disks : List Disk} {cache : Cache}
    (sound : Sound settings disks cache) (path : String) : Sound settings disks (cache.discard path) :=
  ⟨fun entry member => sound.entry entry (List.mem_filter.mp member).1⟩

theorem Sound.store {settings : Settings} {disks : List Disk} {cache : Cache} {d : Disk} {p : AbsPath}
    {stat : FileStat} {content : ByteArray} (sound : Sound settings disks cache) (present : d ∈ disks)
    (sized : statOf? d p = some stat) (read : contentOf? d p = some content) :
    Sound settings disks (cache.store p.text stat.size stat.mtime (findingsOf settings p content)) := by
  constructor
  intro entry member
  rcases List.mem_cons.mp member with rfl | old
  · exact ⟨d, present, p, stat, content, rfl, sized, rfl, read, rfl⟩
  · exact (sound.discard p.text).entry entry old

theorem lookupEntry {cache : Cache} {path mark : String} {findings : List Finding}
    (hit : cache.lookup? path mark = some findings) :
    ∃ entry ∈ cache.entries, entry.path = path ∧ entry.mark = mark ∧ entry.findings = findings := by
  unfold Cache.lookup? at hit
  split at hit
  · rename_i entry found
    split at hit
    · rename_i same
      refine ⟨entry, List.mem_of_find?_eq_some found, ?_, by simpa using same, Option.some.inj hit⟩
      simpa using List.find?_some found
    · contradiction
  · contradiction

theorem Sound.hit {settings : Settings} {disks : List Disk} {cache : Cache} {d : Disk} {p : AbsPath}
    {stat : FileStat} {findings : List Finding} (sound : Sound settings disks cache)
    (faithful : Faithful disks) (present : d ∈ disks) (sized : statOf? d p = some stat)
    (hit : cache.lookup? p.text (fingerprint stat.size stat.mtime) = some findings) :
    ∃ content, contentOf? d p = some content ∧ findings = findingsOf settings p content := by
  obtain ⟨entry, member, path, mark, rfl⟩ := lookupEntry hit
  obtain ⟨old, known, q, stat', content, path', sized', mark', read, found⟩ := sound.entry entry member
  obtain ⟨size, time⟩ := fingerprintInjective (mark.symm.trans mark')
  have texts : p.text = q.text := path.symm.trans path'
  have stats : stat = stat' := by
    cases stat
    cases stat'
    simp_all
  have same := faithful d present old known p q texts (by rw [sized, sized', stats])
  refine ⟨content, same.trans read, ?_⟩
  rw [found, findingsOf, findingsOf, texts]

theorem statFound {source : Source} {p : AbsPath} {stat : FileStat} (found : source.stat p = .ok stat) :
    statOf? source.disk p = some stat := by
  unfold Source.stat at found
  cases trouble : Source.troubled source.faults.stat p.text with
  | error fault =>
    rw [trouble] at found
    contradiction
  | ok none =>
    rw [trouble] at found
    unfold Disk.find at found
    unfold statOf?
    cases node : source.disk.get? p with
    | none =>
      rw [node] at found
      contradiction
    | some node' =>
      rw [node] at found
      cases node' with
      | file content mtime =>
        cases found
        rfl
      | dir =>
        cases found
        rfl
      | special mtime =>
        cases found
        rfl

theorem textFound {source : Source} {p : AbsPath} {text : List Char}
    (found : (source.readText p).1 = .ok text) :
    ∃ content, contentOf? source.disk p = some content ∧ text = Source.textOf content := by
  unfold Source.readText at found
  dsimp only at found
  cases trouble : Source.troubled source.faults.readText p.text with
  | error fault =>
    rw [trouble] at found
    contradiction
  | ok none =>
    rw [trouble] at found
    cases held : source.disk.read p with
    | error failure =>
      rw [held] at found
      contradiction
    | ok content =>
      rw [held] at found
      obtain ⟨mtime, file⟩ := Disk.readFound held
      cases found
      exact ⟨content, by simp [contentOf?, file], rfl⟩

section
variable {e : Engine} {source : Source} {p : AbsPath}

theorem scanFileUnsized {fault : Fault} (unsized : source.stat p = .error fault) :
    e.scanFile source p = ((e.failed p fault).1, (e.failed p fault).2, source) := by
  simp [scanFile, glance, unsized]

theorem scanFileLarge {stat : FileStat} (sized : source.stat p = .ok stat)
    (large : e.settings.limits.maxFileBytes < stat.size) :
    e.scanFile source p =
      (.error (.fileTooLarge stat.size e.settings.limits.maxFileBytes),
        { e with cache := e.cache.discard p.text }, source) := by
  simp [scanFile, glance, sized, large, refuse]

theorem scanFileHit {stat : FileStat} {findings : List Finding} (sized : source.stat p = .ok stat)
    (small : ¬ e.settings.limits.maxFileBytes < stat.size)
    (hit : e.cache.lookup? p.text (fingerprint stat.size stat.mtime) = some findings) :
    e.scanFile source p = (.ok findings, e, source) := by
  simp [scanFile, glance, sized, small, hit]

theorem scanFileMiss {stat : FileStat} (sized : source.stat p = .ok stat)
    (small : ¬ e.settings.limits.maxFileBytes < stat.size)
    (miss : e.cache.lookup? p.text (fingerprint stat.size stat.mtime) = none) :
    e.scanFile source p = ((e.absorb p stat (source.readText p).1).1,
      (e.absorb p stat (source.readText p).1).2, (source.readText p).2) := by
  simp [scanFile, glance, sized, small, miss]

def reported : Fault → Fault
  | .os failure => .unreadable failure.message
  | fault => fault

theorem failedReported (e : Engine) (p : AbsPath) (fault : Fault) :
    (e.failed p fault).1 = .error (reported fault) := by
  cases fault <;> rfl

end

structure Warm (settings : Settings) (disks : List Disk) (e : Engine) (source : Source) : Prop where
  fixed : e.settings = settings
  present : source.disk ∈ disks
  sound : Sound settings disks e.cache

section
variable {settings : Settings} {disks : List Disk} {e : Engine} {source : Source} {p : AbsPath}

theorem Warm.failed (warm : Warm settings disks e source) (p : AbsPath) (fault : Fault) :
    Warm settings disks (e.failed p fault).2 source := by
  unfold Engine.failed
  split
  · exact ⟨warm.fixed, warm.present, warm.sound.discard p.text⟩
  · exact warm

theorem Warm.absorb {stat : FileStat} (warm : Warm settings disks e source)
    (sized : source.stat p = .ok stat) :
    Warm settings disks (e.absorb p stat (source.readText p).1).2 (source.readText p).2 := by
  cases read : (source.readText p).1 with
  | error fault =>
    have next := warm.failed p fault
    exact ⟨next.fixed, next.present, next.sound⟩
  | ok text =>
    obtain ⟨content, held, rfl⟩ := textFound read
    obtain rfl := warm.fixed
    exact ⟨rfl, warm.present, warm.sound.store warm.present (statFound sized) held⟩

theorem Warm.scanFile (warm : Warm settings disks e source) (p : AbsPath) :
    Warm settings disks (e.scanFile source p).2.1 (e.scanFile source p).2.2 := by
  cases sized : source.stat p with
  | error fault =>
    rw [scanFileUnsized sized]
    exact warm.failed p fault
  | ok stat =>
    by_cases large : e.settings.limits.maxFileBytes < stat.size
    · rw [scanFileLarge sized large]
      exact ⟨warm.fixed, warm.present, warm.sound.discard p.text⟩
    · cases hit : e.cache.lookup? p.text (fingerprint stat.size stat.mtime) with
      | some findings =>
        rw [scanFileHit sized large hit]
        exact warm
      | none =>
        rw [scanFileMiss sized large hit]
        exact warm.absorb sized

theorem warmKept (settings : Settings) (disks : List Disk) : Kept (Warm settings disks) := by
  constructor
  · intro e source p warm
    exact warm.scanFile p
  · intro e source scanning last warm
    exact ⟨warm.fixed, warm.present, warm.sound⟩

theorem scanFileFindings {findings : List Finding} (warm : Warm settings disks e source)
    (faithful : Faithful disks) (scanned : (e.scanFile source p).1 = .ok findings) :
    ∃ content, contentOf? source.disk p = some content ∧ findings = findingsOf settings p content := by
  cases sized : source.stat p with
  | error fault =>
    rw [scanFileUnsized sized, failedReported] at scanned
    contradiction
  | ok stat =>
    by_cases large : e.settings.limits.maxFileBytes < stat.size
    · rw [scanFileLarge sized large] at scanned
      contradiction
    · cases hit : e.cache.lookup? p.text (fingerprint stat.size stat.mtime) with
      | some known =>
        rw [scanFileHit sized large hit] at scanned
        cases scanned
        exact warm.sound.hit faithful warm.present (statFound sized) hit
      | none =>
        rw [scanFileMiss sized large hit] at scanned
        cases read : (source.readText p).1 with
        | error fault =>
          rw [read] at scanned
          change (e.failed p fault).1 = .ok findings at scanned
          rw [failedReported] at scanned
          contradiction
        | ok text =>
          rw [read] at scanned
          obtain ⟨content, held, rfl⟩ := textFound read
          obtain rfl := warm.fixed
          cases scanned
          exact ⟨content, held, rfl⟩

theorem scanFileFault {fault : Fault} (scanned : (e.scanFile source p).1 = .error fault) :
    (({ settings := e.settings } : Engine).scanFile source p).1 = .error fault := by
  cases sized : source.stat p with
  | error cause =>
    rw [scanFileUnsized sized, failedReported] at scanned ⊢
    exact scanned
  | ok stat =>
    by_cases large : e.settings.limits.maxFileBytes < stat.size
    · rw [scanFileLarge sized large] at scanned
      rw [scanFileLarge sized (by exact large)]
      exact scanned
    · cases hit : e.cache.lookup? p.text (fingerprint stat.size stat.mtime) with
      | some known =>
        rw [scanFileHit sized large hit] at scanned
        contradiction
      | none =>
        rw [scanFileMiss sized large hit] at scanned
        rw [scanFileMiss sized (by exact large) rfl]
        cases read : (source.readText p).1 with
        | error cause =>
          rw [read] at scanned
          change (e.failed p cause).1 = .error fault at scanned
          change (Engine.failed _ p cause).1 = .error fault
          rw [failedReported] at scanned ⊢
          exact scanned
        | ok text =>
          rw [read] at scanned
          contradiction

end

inductive Act where
  | scanFile (p : AbsPath)
  | scanFiles (now : String) (paths : List String)
  | scanWorkspace (now : String)
  | outside (source : Source)

def perform (e : Engine) (source : Source) : Act → Engine × Source
  | .scanFile p => (e.scanFile source p).2
  | .scanFiles now paths => (e.scanFiles source now paths).2
  | .scanWorkspace now => (e.scanWorkspace source now).2
  | .outside source' => (e, source')

def performAll (e : Engine) (source : Source) : List Act → Engine × Source
  | [] => (e, source)
  | act :: rest => performAll (e.perform source act).1 (e.perform source act).2 rest

def Act.disk? : Act → Option Disk
  | .outside source => some source.disk
  | _ => none

def disksOf (source : Source) (acts : List Act) : List Disk := source.disk :: acts.filterMap Act.disk?

section
variable {settings : Settings} {disks : List Disk} {e : Engine} {source : Source}

theorem performWarm {act : Act} (warm : Warm settings disks e source)
    (known : ∀ d ∈ act.disk?, d ∈ disks) :
    Warm settings disks (e.perform source act).1 (e.perform source act).2 := by
  cases act with
  | scanFile p => exact warm.scanFile p
  | scanFiles now paths => exact (warmKept settings disks).scanFiles now paths warm
  | scanWorkspace now => exact (warmKept settings disks).scanWorkspace now warm
  | outside source' => exact ⟨warm.fixed, known source'.disk rfl, warm.sound⟩

theorem performAllWarm {acts : List Act} (warm : Warm settings disks e source)
    (known : ∀ d ∈ acts.filterMap Act.disk?, d ∈ disks) :
    Warm settings disks (performAll e source acts).1 (performAll e source acts).2 := by
  induction acts generalizing e source with
  | nil => exact warm
  | cons act rest ih =>
    apply ih
    · apply performWarm warm
      intro d found
      exact known d (List.mem_filterMap.mpr ⟨act, List.mem_cons_self, found⟩)
    · intro d found
      obtain ⟨act', member, made⟩ := List.mem_filterMap.mp found
      exact known d (List.mem_filterMap.mpr ⟨act', List.mem_cons_of_mem _ member, made⟩)

end

theorem cacheTransparent (settings : Settings) (start : Source) (acts : List Act)
    (faithful : Faithful (disksOf start acts)) (p : AbsPath) :
    let (e, source) := performAll { settings } start acts
    (∀ findings, (e.scanFile source p).1 = .ok findings →
      ∃ content, contentOf? source.disk p = some content ∧ findings = findingsOf settings p content) ∧
    (∀ fault, (e.scanFile source p).1 = .error fault →
      (({ settings } : Engine).scanFile source p).1 = .error fault) := by
  have empty : Sound settings (disksOf start acts) {} := ⟨by simp⟩
  have fresh : Warm settings (disksOf start acts) { settings } start :=
    ⟨rfl, List.mem_cons_self, empty⟩
  have warm := performAllWarm fresh (fun d found => List.mem_cons_of_mem start.disk found)
  dsimp only
  refine ⟨fun findings scanned => scanFileFindings warm faithful scanned, ?_⟩
  intro fault scanned
  have same := scanFileFault scanned
  rw [warm.fixed] at same
  exact same

def written (content : String) (mtime : Int) : Source :=
  { disk := { nodes := [(⟨["w"]⟩, .dir), (⟨["w", "a.php"]⟩, .file content.toUTF8 mtime)] } }

-- A table of contents by time describes such files; directories have time zero and no content.
theorem writtenByTime {table : Option Int → Option ByteArray} {content : String} {mtime : Int}
    (file : table (some mtime) = some content.toUTF8) (folder : table (some 0) = none)
    (nothing : table none = none) (p : AbsPath) :
    contentOf? (written content mtime).disk p =
      table ((statOf? (written content mtime).disk p).map FileStat.mtime) := by
  unfold contentOf? statOf? Disk.get?
  by_cases top : p.names.isEmpty = true
  · simp [top, folder]
  · by_cases inside : (⟨["w"]⟩ : AbsPath) = p
    · simp [← inside, written, folder]
    · by_cases here : (⟨["w", "a.php"]⟩ : AbsPath) = p
      · simpa [← here, written] using file.symm
      · simp [written, inside, here, top, nothing]

theorem changedFileScanned :
    let acts := [Act.scanFile ⟨["w", "a.php"]⟩, .outside (written "echo 2;" 2), .scanWorkspace "t"]
    let (e, source) := performAll { settings := Settings.default ⟨["w"]⟩ } (written "dd(1);" 1) acts
    (∀ findings, (e.scanFile source ⟨["w", "a.php"]⟩).1 = .ok findings →
      ∃ content, contentOf? source.disk ⟨["w", "a.php"]⟩ = some content ∧
        findings = findingsOf (Settings.default ⟨["w"]⟩) ⟨["w", "a.php"]⟩ content) ∧
    ∀ fault, (e.scanFile source ⟨["w", "a.php"]⟩).1 = .error fault →
      (({ settings := Settings.default ⟨["w"]⟩ } : Engine).scanFile source ⟨["w", "a.php"]⟩).1 =
        .error fault := by
  intro acts
  let table (time : Option Int) : Option ByteArray :=
    if time = some 1 then some "dd(1);".toUTF8
    else if time = some 2 then some "echo 2;".toUTF8
    else none
  have byTime : ∀ d ∈ disksOf (written "dd(1);" 1) acts, ∀ p,
      contentOf? d p = table ((statOf? d p).map FileStat.mtime) := by
    intro d member p
    have known : d = (written "dd(1);" 1).disk ∨ (written "echo 2;" 2).disk = d := by
      simpa [disksOf, acts, Act.disk?] using member
    rcases known with rfl | rfl
    · exact writtenByTime rfl rfl rfl p
    · exact writtenByTime rfl rfl rfl p
  have faithful : Faithful (disksOf (written "dd(1);" 1) acts) := by
    intro a left b right p q _ stats
    rw [byTime a left, byTime b right, stats]
  exact cacheTransparent (Settings.default ⟨["w"]⟩) (written "dd(1);" 1) acts faithful ⟨["w", "a.php"]⟩

end Engine
end DebugSweep
