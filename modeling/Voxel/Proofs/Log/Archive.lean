import Mathlib.Data.List.Forall2
import Mathlib.Order.Bounds.Basic
import Voxel.Log.Archive
import Voxel.Outcome

/-!
# What the archive keeps

A day's next number belongs to a name that no file has (`free_archived`), so that archiving a log never
writes over one. It does take away what stands under the name that a log has on its way, and it is a
fault when the numbers have run out (`archives`). A run of logs keeps each of them (`rotates`).
-/

namespace Voxel

/-! ### Numbers in names -/

namespace Text

theorem digits?_toDigits (n : Nat) : digits? (Nat.toDigits 10 n) = some n := by
  have digits : (Nat.toDigits 10 n).any (fun c => !c.isDigit) = false := by
    rw [List.any_eq_false]
    intro c member
    rw [Nat.isDigit_of_mem_toDigits (by decide) (by decide) member]
    decide
  have full : (Nat.toDigits 10 n).isEmpty = false := List.isEmpty_eq_false_iff.mpr Nat.toDigits_ne_nil
  rw [digits?, full, digits, if_neg (by decide)]
  exact congrArg some Nat.ofDigitChars_ten_toDigits

theorem not_mem_toDigits {c : Char} (other : c.isDigit = false) (n : Nat) : c ∉ Nat.toDigits 10 n := by
  intro member
  rw [Nat.isDigit_of_mem_toDigits (by decide) (by decide) member] at other
  cases other

theorem readIndex?_toDigits {n : Nat} (small : n < UInt32.size) :
    readIndex? (Nat.toDigits 10 n) = some n := by
  have unsigned : ∀ rest, Nat.toDigits 10 n ≠ '+' :: rest := fun rest same =>
    not_mem_toDigits (by decide) n (same ▸ List.mem_cons_self)
  unfold readIndex?
  split
  · rename_i rest same
    exact absurd same (unsigned rest)
  · dsimp only
    rw [digits?_toDigits, Option.filter_some, if_pos (decide_eq_true small)]

theorem readIndex?_lt {cs : List Char} {n : Nat} (read : readIndex? cs = some n) : n < UInt32.size := by
  unfold readIndex? at read
  exact of_decide_eq_true (Option.filter_eq_some_iff.mp read).2

end Text

namespace Log.Directory

variable {α : Type} {day name : String} {d e : Directory α} {n : Nat}

theorem number?_lt (numbered : number? name = some n) : n < UInt32.size := by
  unfold number? at numbered
  dsimp only at numbered
  split at numbered
  · cases numbered
  · exact Text.readIndex?_lt numbered

theorem number?_eq {front digits back : List Char}
    (parts : name.toList = (front ++ '-' :: digits) ++ '.' :: back)
    (front_dotless : '.' ∉ front) (dotless : '.' ∉ digits) (dashless : '-' ∉ digits) (back_dashless : '-' ∉ back) :
    number? name = Text.readIndex? digits := by
  have before : ∀ c ∈ front ++ '-' :: digits, decide (c ≠ '.') = true := by
    intro c member
    refine decide_eq_true ?_
    rintro rfl
    simp_all
  have stem : name.toList.takeWhile (· ≠ '.') = front ++ '-' :: digits := by
    rw [parts, List.takeWhile_append_of_pos before, List.takeWhile_cons_of_neg (by decide),
      List.append_nil]
  have rest : name.toList.dropWhile (· ≠ '.') = '.' :: back := by
    rw [parts, List.dropWhile_append_of_pos before, List.dropWhile_cons_of_neg (by decide)]
  have last : ((front ++ '-' :: digits).reverse.takeWhile (· ≠ '-')).reverse = digits := by
    have after : ∀ c ∈ digits.reverse, decide (c ≠ '-') = true := by
      intro c member
      refine decide_eq_true ?_
      rintro rfl
      exact dashless (List.mem_reverse.mp member)
    rw [List.reverse_append, List.reverse_cons, List.append_assoc,
      List.takeWhile_append_of_pos after]
    simp
  unfold number?
  dsimp only
  rw [stem, rest, last, if_neg]
  simp [back_dashless]

theorem toList_archived (day : String) (n : Nat) :
    (archived day n).toList = (day.toList ++ '-' :: Nat.toDigits 10 n) ++ '.' :: "log.gz".toList := by
  rw [List.append_assoc, archived, String.toList_append, String.toList_append, String.toList_append,
    List.append_assoc, List.append_assoc, Nat.toString_eq_repr, Nat.toList_repr]
  rfl

theorem number?_archived (dotless : '.' ∉ day.toList) (small : n < UInt32.size) :
    number? (archived day n) = some n := by
  have dot : '.' ∉ Nat.toDigits 10 n := Text.not_mem_toDigits (by decide) n
  have dash : '-' ∉ Nat.toDigits 10 n := Text.not_mem_toDigits (by decide) n
  rw [number?_eq (toList_archived day n) dotless dot dash (by decide), Text.readIndex?_toDigits small]

theorem ne_of_numbered (numbered : (number? name).isSome) : name ≠ current ∧ name ≠ moving := by
  constructor
  · rintro rfl
    exact absurd numbered (by decide)
  · rintro rfl
    exact absurd numbered (by decide)

/-! ### The next number -/

def Numbers (day : String) (d : Directory α) (n : Nat) : Prop :=
  ∃ name ∈ d.keys, day.toList <+: name.toList ∧ number? name = some n

theorem isGreatest_foldl_max (l : List Nat) (n : Nat) : IsGreatest {k | k = n ∨ k ∈ l} (l.foldl max n) := by
  have top : (n :: l).max? = some (l.foldl max n) := List.max?_cons'
  obtain ⟨attained, above⟩ := List.max?_eq_some_iff.mp top
  exact ⟨List.mem_cons.mp attained, fun k member => above k (List.mem_cons.mpr member)⟩

theorem highest_isGreatest (day : String) (d : Directory α) :
    IsGreatest {n | n = 0 ∨ d.Numbers day n} (highest day d) := by
  have same : {n | n = 0 ∨ d.Numbers day n} = {n | n = 0 ∨
      n ∈ (d.keys.filter fun name => day.toList.isPrefixOf name.toList).filterMap number?} := by
    ext n
    simp only [Numbers, Set.mem_ofPred_eq, List.mem_filterMap, List.mem_filter, List.isPrefixOf_iff_prefix,
      and_assoc]
  rw [same]
  exact isGreatest_foldl_max _ 0

theorem highest_lt (day : String) (d : Directory α) : highest day d < UInt32.size := by
  rcases (highest_isGreatest day d).1 with zero | ⟨name, _, _, numbered⟩
  · rw [zero]
    decide
  · exact number?_lt numbered

structure Free (d : Directory α) (name : String) : Prop where
  numbered : (number? name).isSome
  absent : d.find? name = none

/-- The name that goes with the next number is free. -/
theorem free_archived (dotless : '.' ∉ day.toList) (room : highest day d + 1 < UInt32.size) :
    d.Free (archived day (highest day d + 1)) := by
  have numbered := number?_archived dotless room
  refine ⟨by rw [numbered]; rfl, ?_⟩
  cases found : d.find? (archived day (highest day d + 1)) with
  | none => rfl
  | some f =>
    have known : archived day (highest day d + 1) ∈ d.keys :=
      List.mem_map_of_mem (OrderedMap.find?_eq_some_iff.mp found)
    have starts : day.toList <+: (archived day (highest day d + 1)).toList := by
      rw [toList_archived, List.append_assoc]
      exact List.prefix_append _ _
    have le := (highest_isGreatest day d).2 (Or.inr ⟨_, known, starts, numbered⟩)
    exact absurd le (Nat.not_succ_le_self _)

/-! ### One log -/

/-- A log moves under a free name. Of the other files, the one that stood under the name it moved by is
gone. -/
structure Moves (d : Directory α) (name : String) (log : File α) (e : Directory α) : Prop where
  free : d.Free name
  there : e.find? name = some (.compressed log)
  taken : e.find? current = none
  cleared : e.find? moving = none
  others : ∀ other, other ≠ name → other ≠ current → other ≠ moving → e.find? other = d.find? other

/-- How archiving ends: as a fault at the last number, with nothing to do, or with the log moved. -/
inductive Archives (day : String) (d : Directory α) : Except Failure (Directory α) → Prop
  | full (last : highest day d + 1 = UInt32.size) : Archives day d (.error .fault)
  | idle (room : highest day d + 1 < UInt32.size) (missing : d.find? current = none) :
    Archives day d (.ok d)
  | moved {log : File α} {e : Directory α} (room : highest day d + 1 < UInt32.size)
    (here : d.find? current = some log) (moves : d.Moves (archived day (highest day d + 1)) log e) :
    Archives day d (.ok e)

theorem archives (dotless : '.' ∉ day.toList) (d : Directory α) : Archives day d (archive day d) := by
  have bound := highest_lt day d
  unfold archive
  dsimp only
  split
  · exact .full (by omega)
  · rename_i below
    have room : highest day d + 1 < UInt32.size := by omega
    have free := free_archived dotless room
    obtain ⟨notCurrent, notMoving⟩ := ne_of_numbered free.numbered
    cases here : d.find? current with
    | none => exact .idle room here
    | some log =>
      refine .moved room here ⟨free, ?_, ?_, ?_, fun other h₁ h₂ h₃ => ?_⟩
      · simp [OrderedMap.find?_erase, notMoving]
      · simp [OrderedMap.find?_erase, notCurrent.symm, show current ≠ moving by decide]
      · simp [OrderedMap.find?_erase]
      · simp [OrderedMap.find?_erase, h₁, h₂, h₃]

theorem Moves.kept {log f : File α} (moves : d.Moves name log e) {other : String}
    (there : d.find? other = some f) (h₁ : other ≠ current) (h₂ : other ≠ moving) :
    e.find? other = some f := by
  have old : other ≠ name := by
    rintro rfl
    cases there.symm.trans moves.free.absent
  rw [moves.others other old h₁ h₂, there]

/-! ### Runs -/

/-- Writes a log as the current one and archives it on its day. -/
def rotate (d : Directory α) (log : String × α) : Except Failure (Directory α) :=
  archive log.1 (d.insert current (.text log.2))

/-- Logs stand under numbered names of their days that were free, and no file went away or changed but
for those that archiving uses itself. -/
structure Keeps (d : Directory α) (logs : List (String × α)) (e : Directory α) : Prop where
  logs : ∃ names : List String, names.Nodup ∧ (∀ name ∈ names, d.Free name) ∧
    List.Forall₂ (fun name log => (∃ n, name = archived log.1 n) ∧
      e.find? name = some (.compressed (.text log.2))) names logs
  files : ∀ name f, d.find? name = some f → name ≠ current → name ≠ moving → e.find? name = some f

theorem keeps_nil (d : Directory α) : Keeps d [] d where
  logs := ⟨[], .nil, nofun, .nil⟩
  files _ _ there _ _ := there

theorem Keeps.cons {log : String × α} {logs : List (String × α)} {f : Directory α}
    (moves : Moves (d.insert current (.text log.2)) (archived log.1 n) (.text log.2) e)
    (keeps : e.Keeps logs f) : d.Keeps (log :: logs) f := by
  have kept : ∀ other g, d.find? other = some g → other ≠ current → other ≠ moving →
      e.find? other = some g := by
    intro other g there h₁ h₂
    refine moves.kept ?_ h₁ h₂
    rw [OrderedMap.find?_insert, if_neg h₁, there]
  -- what is free later was free before, since no numbered file goes away
  have free : ∀ other, e.Free other → d.Free other := by
    intro other free
    obtain ⟨h₁, h₂⟩ := ne_of_numbered free.numbered
    refine ⟨free.numbered, ?_⟩
    cases there : d.find? other with
    | none => rfl
    | some g => cases (kept other g there h₁ h₂).symm.trans free.absent
  obtain ⟨notCurrent, notMoving⟩ := ne_of_numbered moves.free.numbered
  have first : d.Free (archived log.1 n) := by
    refine ⟨moves.free.numbered, ?_⟩
    rw [← moves.free.absent, OrderedMap.find?_insert, if_neg notCurrent]
  obtain ⟨names, nodup, frees, stand⟩ := keeps.logs
  have new : archived log.1 n ∉ names := fun member =>
    Option.some_ne_none _ (moves.there.symm.trans (frees _ member).absent)
  have there := keeps.files _ _ moves.there notCurrent notMoving
  refine ⟨⟨archived log.1 n :: names, List.nodup_cons.mpr ⟨new, nodup⟩, ?_, .cons ⟨⟨n, rfl⟩, there⟩ stand⟩, ?_⟩
  · exact List.forall_mem_cons.mpr ⟨first, fun other member => free other (frees other member)⟩
  · exact fun other g there h₁ h₂ => keeps.files other g (kept other g there h₁ h₂) h₁ h₂

/-- How a run ends: with every log kept, or as a fault at the first log whose day has no number left. -/
inductive Rotates (d : Directory α) (logs : List (String × α)) : Except Failure (Directory α) → Prop
  | kept {e : Directory α} (keeps : d.Keeps logs e) : Rotates d logs (.ok e)
  | full {before after : List (String × α)} {log : String × α} {e : Directory α}
    (split : logs = before ++ log :: after) (keeps : d.Keeps before e)
    (last : highest log.1 (e.insert current (.text log.2)) + 1 = UInt32.size) :
    Rotates d logs (.error .fault)

theorem rotates (d : Directory α) {logs : List (String × α)}
    (dotless : ∀ log ∈ logs, '.' ∉ log.1.toList) : Rotates d logs (logs.foldlM rotate d) := by
  induction logs generalizing d with
  | nil => exact .kept (keeps_nil d)
  | cons log rest ih =>
    obtain ⟨plain, later⟩ := List.forall_mem_cons.mp dotless
    -- the log was written just now, so that archiving has something to do
    have written : (d.insert current (.text log.2)).find? current = some (.text log.2) := by
      rw [OrderedMap.find?_insert, if_pos rfl]
    rw [List.foldlM_cons, rotate]
    generalize outcome : archive log.1 (d.insert current (.text log.2)) = x
    have ends := archives plain (d.insert current (.text log.2))
    rw [outcome] at ends
    cases ends with
    | full last => exact .full (List.nil_append _).symm (keeps_nil d) last
    | idle _ missing => cases written.symm.trans missing
    | moved room here moves =>
      rename_i e
      obtain rfl := Option.some.inj (here.symm.trans written)
      rw [Outcome.ok_bind]
      generalize run : rest.foldlM rotate e = y
      have rests := ih e later
      rw [run] at rests
      cases rests with
      | kept keeps => exact .kept (keeps.cons moves)
      | full split keeps last =>
        rw [split]
        exact .full (List.cons_append ..).symm (keeps.cons moves) last

/-- The number of a log that is archived comes after the highest of its day. It moves there as long as
there is a number, and so does every log of a run; no file is lost but one that stood in the way. -/
theorem archive_accounts (dotless : '.' ∉ day.toList) (d : Directory α) {logs : List (String × α)}
    (plain : ∀ log ∈ logs, '.' ∉ log.1.toList) :
    IsGreatest {n | n = 0 ∨ d.Numbers day n} (highest day d) ∧ Archives day d (archive day d) ∧
      Rotates d logs (logs.foldlM rotate d) :=
  ⟨highest_isGreatest day d, archives dotless d, rotates d plain⟩

/-! ### Logs of May -/

def mayLogs : Directory :=
  ⟨[("2024-05-01-7.log.gz", .compressed (.text "seven")), (current, .text "new")], by decide⟩

theorem mayLogs_accounts : ('.' ∉ "2024-05-01".toList ∧
      ∀ log ∈ [("2024-05-01", "eight"), ("2024-05-02", "one")], '.' ∉ log.1.toList) ∧
    IsGreatest {n | n = 0 ∨ mayLogs.Numbers "2024-05-01" n} 7 ∧
    Archives "2024-05-01" mayLogs (archive "2024-05-01" mayLogs) ∧
    Rotates mayLogs [("2024-05-01", "eight"), ("2024-05-02", "one")]
      ([("2024-05-01", "eight"), ("2024-05-02", "one")].foldlM rotate mayLogs) := by
  have dotless : '.' ∉ "2024-05-01".toList := by decide
  have plain : ∀ log ∈ [("2024-05-01", "eight"), ("2024-05-02", "one")], '.' ∉ log.1.toList := by
    decide
  have seven : highest "2024-05-01" mayLogs = 7 := by decide
  obtain ⟨greatest, archived, rotated⟩ := archive_accounts dotless mayLogs plain
  exact ⟨⟨dotless, plain⟩, seven ▸ greatest, archived, rotated⟩

def strandedLog : Directory := ⟨[(current, .text "new"), (moving, .text "old")], by decide⟩

/-- A log that was left on its way is lost with the next one. -/
theorem stranded_lost : ¬ ∀ (day : String) (d : Directory), '.' ∉ day.toList →
    ∃ e, archive day d = .ok e ∧
      ∀ name f, d.find? name = some f → name ≠ current → e.find? name = some f := by
  intro all
  obtain ⟨e, run, keeps⟩ := all "2024-05-01" strandedLog (by decide)
  have still : e.find? moving = some (.text "old") := keeps moving _ (by decide) (by decide)
  have gone : (archive "2024-05-01" strandedLog).map (·.find? moving) = .ok none := by decide
  rw [run] at gone
  cases still.symm.trans (Except.ok.inj gone)

-- the highest number there can be leaves none for the next log
example : archive "2024-05-01" (α := String)
    ⟨[("2024-05-01-4294967295.log.gz", .text "last"), (current, .text "new")], by decide⟩ =
      .error .fault := by decide

end Log.Directory
end Voxel
