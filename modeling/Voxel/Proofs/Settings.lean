import Voxel.Settings
import Voxel.Proofs.Json
import Voxel.Proofs.Json.Text

/-!
# Settings and their file

What is written of settings is read again, with the usual ones for what is left out (`ofText_given`),
and what is read of a text is what stands in it (`ofText_told`). Rewriting a file leaves nothing of what
was in it (`bytes_rewritten`). So loading mends a file at most once, and what it gives is what is in
the file from then on (`load_settles`).
-/

namespace Voxel

/-! ### Files -/

namespace OpenFile

theorem upTo_zero (bytes : ByteArray) : upTo bytes 0 = .empty := by
  rw [upTo, Nat.zero_sub, ByteArray.extract_same]
  rfl

theorem upTo_append (a b : ByteArray) : upTo (a ++ b) a.size = a := by
  have none : a.size - (a ++ b).size = 0 := by
    rw [ByteArray.size_append]
    omega
  rw [upTo, none, ByteArray.extract_append_eq_left rfl]
  exact ByteArray.append_empty

/-- What is written from the start of a file, and cut off where it ends, is all there is. -/
theorem bytes_rewritten (f : OpenFile) (new : ByteArray) :
    (((f.seek 0).write new).setLength new.size).bytes = new := by
  simp only [seek, write, setLength, upTo_zero, ByteArray.empty_append, upTo_append]

end OpenFile

theorem fromUTF8?_eq_some_iff {bytes : ByteArray} {text : String} :
    String.fromUTF8? bytes = some text ↔ bytes = text.toUTF8 := by
  unfold String.fromUTF8?
  constructor
  · intro read
    split at read
    · cases read
      rfl
    · cases read
  · rintro rfl
    rw [String.toUTF8_eq_toByteArray, dif_pos text.isValidUTF8]
    rfl

/-! ### Records -/

open Json (Taken ReadsOr)

namespace LogSettings

structure Given where
  level : Option String
  directory : Option (Option String)

namespace Given

def all (s : LogSettings) : Given := ⟨some s.level, some s.directory⟩

/-- What is given, and what is usual otherwise. -/
def settings (g : Given) : LogSettings :=
  ⟨g.level.getD standard.level, g.directory.getD standard.directory⟩

def writeDirectory (directory : Option String) : Json := (directory.map Json.text).getD .null

def toJson (g : Given) : Json :=
  .record ((g.level.map fun s => ("level", Json.text s)).toList ++
    ((g.directory.map fun d => ("directory", writeDirectory d)).toList ++ []))

end Given

theorem ofJson_given (g : Given) : ofJson g.toJson = .ok g.settings := by
  obtain ⟨level, directory⟩ := g
  have second : Taken fields readField [] 1 ⟨level.getD "debug", some "logs"⟩
      ((directory.map fun d => ("directory", Given.writeDirectory d)).toList ++ [])
      ⟨level.getD "debug", directory.getD (some "logs")⟩ := by
    refine .option rfl List.not_mem_nil (fun absent => by rw [absent]; rfl) (fun d given => ?_)
      (.nil fun _ member => absurd member List.not_mem_nil)
    rw [given]
    cases d <;> rfl
  have taken : Taken fields readField [] 0 standard
      ((level.map fun s => ("level", Json.text s)).toList ++
        ((directory.map fun d => ("directory", Given.writeDirectory d)).toList ++ []))
      ⟨level.getD "debug", directory.getD (some "logs")⟩ := by
    refine .option rfl List.not_mem_nil (fun absent => by rw [absent]; rfl) (fun s given => ?_) second
    rw [given]
    rfl
  obtain ⟨places, run, _⟩ := taken.foldRecord_ok (by decide)
  rw [ofJson, Given.toJson, run]
  rfl

theorem plain_given (g : Given) : g.toJson.Plain := by
  refine .record fun f member => ?_
  simp only [List.mem_append, Option.mem_toList, List.not_mem_nil, or_false] at member
  obtain level | directory := member
  · obtain ⟨s, _, rfl⟩ := Option.map_eq_some_iff.mp level
    exact .text s
  · obtain ⟨d, _, rfl⟩ := Option.map_eq_some_iff.mp directory
    cases d with
    | none => exact .null
    | some path => exact .text path

/-- Log settings are what the fields of a record say. -/
structure Told (s : LogSettings) (j : Json) : Prop where
  level : ReadsOr Json.asText standard.level s.level (j.member? 0 "level")
  directory : ReadsOr (Json.asOption Json.asText) standard.directory s.directory
    (j.member? 1 "directory")

inductive Sets (s : LogSettings) : Nat → Json → LogSettings → Prop
  | level {j level} (read : j.asText = .ok level) : Sets s 0 j { s with level }
  | directory {j directory} (read : j.asOption Json.asText = .ok directory) :
    Sets s 1 j { s with directory }

theorem readField_sets {s t : LogSettings} {n : Nat} {j : Json} (low : n < fields.length)
    (run : readField s n j = .ok t) : s.Sets n j t := by
  match n, low with
  | 0, _ =>
    obtain ⟨_, read, run⟩ := Outcome.bind_ok run
    cases run
    exact .level read
  | 1, _ =>
    obtain ⟨_, read, run⟩ := Outcome.bind_ok run
    cases run
    exact .directory read

theorem ofJson_told {j : Json} {s : LogSettings} (run : ofJson j = .ok s) : s.Told j where
  level := by
    refine Json.foldRecord_sets run (by decide) rfl (fun _ _ _ _ => readField_sets)
      (fun s n j t sets other => ?_) (fun s j t sets => ?_)
    · cases sets with
      | level => exact absurd rfl other
      | directory => rfl
    · cases sets with
      | level read => exact read
  directory := by
    refine Json.foldRecord_sets run (by decide) rfl (fun _ _ _ _ => readField_sets)
      (fun s n j t sets other => ?_) (fun s j t sets => ?_)
    · cases sets with
      | level => rfl
      | directory => exact absurd rfl other
    · cases sets with
      | directory read => exact read

end LogSettings

namespace Settings

structure Given where
  registryDirectory : Option String
  aliases : Option (OrderedMap String String)
  poolCapacity : Option Nat
  log : Option LogSettings.Given

namespace Given

def all (s : Settings) : Given :=
  ⟨some s.registryDirectory, some s.aliases, some s.poolCapacity, some (.all s.log)⟩

/-- What is given, and what is usual otherwise. -/
def settings (g : Given) : Settings :=
  ⟨g.registryDirectory.getD standard.registryDirectory, g.aliases.getD standard.aliases,
    g.poolCapacity.getD standard.poolCapacity, (g.log.map (·.settings)).getD standard.log⟩

def Fits (g : Given) : Prop := ∀ capacity ∈ g.poolCapacity, capacity < UInt64.size

def writeAliases (aliases : OrderedMap String String) : Json :=
  .record (aliases.entries.map fun e => (e.1, .text e.2))

def toJson (g : Given) : Json :=
  .record ((g.registryDirectory.map fun s => ("registry_dir", Json.text s)).toList ++
    ((g.aliases.map fun m => ("version_aliases", writeAliases m)).toList ++
    ((g.poolCapacity.map fun n => ("pool_capacity", Json.nat n)).toList ++
    ((g.log.map fun l => ("log", l.toJson)).toList ++ []))))

def text (g : Given) : String := g.toJson.pretty 0

end Given

theorem ofJson_given {g : Given} (fits : g.Fits) : ofJson g.toJson = .ok g.settings := by
  obtain ⟨folder, aliases, capacity, log⟩ := g
  -- each field is read on top of those before it, with what is usual in those behind it
  have first {rest t} (later : Taken fields readField [] 1
      ⟨folder.getD "./registries", .empty, usualCapacity, .standard⟩ rest t) :
      Taken fields readField [] 0 standard
        ((folder.map fun s => ("registry_dir", Json.text s)).toList ++ rest) t := by
    refine .option rfl List.not_mem_nil (fun absent => by rw [absent]; rfl) (fun s given => ?_) later
    rw [given]
    rfl
  have second {rest t} (later : Taken fields readField [] 2
      ⟨folder.getD "./registries", aliases.getD .empty, usualCapacity, .standard⟩ rest t) :
      Taken fields readField [] 1 ⟨folder.getD "./registries", .empty, usualCapacity, .standard⟩
        ((aliases.map fun m => ("version_aliases", Given.writeAliases m)).toList ++ rest) t := by
    refine .option rfl List.not_mem_nil (fun absent => by rw [absent]; rfl) (fun m given => ?_) later
    simp only [readField, Given.writeAliases, Json.asMap_texts, given]
    rfl
  have third {rest t} (later : Taken fields readField [] 3
      ⟨folder.getD "./registries", aliases.getD .empty, capacity.getD usualCapacity, .standard⟩ rest t) :
      Taken fields readField [] 2
        ⟨folder.getD "./registries", aliases.getD .empty, usualCapacity, .standard⟩
        ((capacity.map fun n => ("pool_capacity", Json.nat n)).toList ++ rest) t := by
    refine .option rfl List.not_mem_nil (fun absent => by rw [absent]; rfl) (fun n given => ?_) later
    simp only [readField, Json.asNatBelow_nat (fits n given), given]
    rfl
  have fourth : Taken fields readField [] 3
      ⟨folder.getD "./registries", aliases.getD .empty, capacity.getD usualCapacity, .standard⟩
      ((log.map fun l => ("log", l.toJson)).toList ++ [])
      (Given.settings ⟨folder, aliases, capacity, log⟩) := by
    refine .option rfl List.not_mem_nil (fun absent => by rw [absent]; rfl) (fun l given => ?_)
      (.nil fun _ member => absurd member List.not_mem_nil)
    simp only [readField, LogSettings.ofJson_given, given]
    rfl
  obtain ⟨places, run, _⟩ := (first (second (third fourth))).foldRecord_ok (by decide)
  rw [ofJson, Given.toJson, run]
  rfl

theorem plain_given (g : Given) : g.toJson.Plain := by
  refine .record fun f member => ?_
  simp only [List.mem_append, Option.mem_toList, List.not_mem_nil, or_false] at member
  obtain folder | aliases | capacity | log := member
  · obtain ⟨s, _, rfl⟩ := Option.map_eq_some_iff.mp folder
    exact .text s
  · obtain ⟨m, _, rfl⟩ := Option.map_eq_some_iff.mp aliases
    refine .record fun g inside => ?_
    obtain ⟨e, _, rfl⟩ := List.mem_map.mp inside
    exact .text _
  · obtain ⟨n, _, rfl⟩ := Option.map_eq_some_iff.mp capacity
    exact .number _
  · obtain ⟨l, _, rfl⟩ := Option.map_eq_some_iff.mp log
    exact LogSettings.plain_given l

/-- What is written is read again, with what is usual for all that is left out. -/
theorem ofText_given {g : Given} (fits : g.Fits) : ofText g.text = .ok g.settings := by
  rw [ofText, Given.text, (plain_given g).ofText_pretty, Json.Document.read, ofJson_given fits]
  rfl

theorem ofText_text {s : Settings} (fits : s.poolCapacity < UInt64.size) : ofText s.text = .ok s := by
  have all : (Given.all s).Fits := by
    rintro _ ⟨⟩
    exact fits
  have written : (Given.all s).text = s.text := rfl
  rw [← written, ofText_given all]
  rfl

/-- Settings are what the fields of a record say. -/
structure Told (s : Settings) (j : Json) : Prop where
  registryDirectory : ReadsOr Json.asText standard.registryDirectory s.registryDirectory
    (j.member? 0 "registry_dir")
  aliases : ReadsOr (Json.asMap pure Json.asText) standard.aliases s.aliases
    (j.member? 1 "version_aliases")
  poolCapacity : ReadsOr (Json.asNatBelow UInt64.size) standard.poolCapacity s.poolCapacity
    (j.member? 2 "pool_capacity")
  log : match j.member? 3 "log" with
    | some v => s.log.Told v
    | none => s.log = standard.log

inductive Sets (s : Settings) : Nat → Json → Settings → Prop
  | registryDirectory {j registryDirectory} (read : j.asText = .ok registryDirectory) :
    Sets s 0 j { s with registryDirectory }
  | aliases {j aliases} (read : j.asMap pure Json.asText = .ok aliases) :
    Sets s 1 j { s with aliases }
  | poolCapacity {j poolCapacity} (read : j.asNatBelow UInt64.size = .ok poolCapacity) :
    Sets s 2 j { s with poolCapacity }
  | log {j log} (read : LogSettings.ofJson j = .ok log) : Sets s 3 j { s with log }

theorem readField_sets {s t : Settings} {n : Nat} {j : Json} (low : n < fields.length)
    (run : readField s n j = .ok t) : s.Sets n j t := by
  match n, low with
  | 0, _ =>
    obtain ⟨_, read, run⟩ := Outcome.bind_ok run
    cases run
    exact .registryDirectory read
  | 1, _ =>
    obtain ⟨_, read, run⟩ := Outcome.bind_ok run
    cases run
    exact .aliases read
  | 2, _ =>
    obtain ⟨_, read, run⟩ := Outcome.bind_ok run
    cases run
    exact .poolCapacity read
  | 3, _ =>
    obtain ⟨_, read, run⟩ := Outcome.bind_ok run
    cases run
    exact .log read

theorem ofJson_log {j : Json} {s : Settings} (run : ofJson j = .ok s) :
    ReadsOr LogSettings.ofJson standard.log s.log (j.member? 3 "log") := by
  refine Json.foldRecord_sets run (by decide) rfl (fun _ _ _ _ => readField_sets)
    (fun s n j t sets other => ?_) (fun s j t sets => ?_)
  · cases sets with
    | log => exact absurd rfl other
    | _ => rfl
  · cases sets with
    | log read => exact read

theorem ofJson_told {j : Json} {s : Settings} (run : ofJson j = .ok s) : s.Told j where
  registryDirectory := by
    refine Json.foldRecord_sets run (by decide) rfl (fun _ _ _ _ => readField_sets)
      (fun s n j t sets other => ?_) (fun s j t sets => ?_)
    · cases sets with
      | registryDirectory => exact absurd rfl other
      | _ => rfl
    · cases sets with
      | registryDirectory read => exact read
  aliases := by
    refine Json.foldRecord_sets run (by decide) rfl (fun _ _ _ _ => readField_sets)
      (fun s n j t sets other => ?_) (fun s j t sets => ?_)
    · cases sets with
      | aliases => exact absurd rfl other
      | _ => rfl
    · cases sets with
      | aliases read => exact read
  poolCapacity := by
    refine Json.foldRecord_sets run (by decide) rfl (fun _ _ _ _ => readField_sets)
      (fun s n j t sets other => ?_) (fun s j t sets => ?_)
    · cases sets with
      | poolCapacity => exact absurd rfl other
      | _ => rfl
    · cases sets with
      | poolCapacity read => exact read
  log := by
    have reads := ofJson_log run
    cases found : j.member? 3 "log" with
    | some v =>
      rw [found] at reads
      exact LogSettings.ofJson_told reads
    | none =>
      rw [found] at reads
      exact reads

theorem ofText_told {text : String} {s : Settings} (run : ofText text = .ok s) :
    ∃ j, Json.Document.ofText text = ⟨j, true⟩ ∧ s.Told j := by
  obtain ⟨t, read, run⟩ := Outcome.bind_ok run
  split at run
  · rename_i ended
    cases run
    exact ⟨_, by rw [← ended], ofJson_told read⟩
  · cases run

-- the usual settings as they are written
example : standard.text = "\x7b
  \"registry_dir\": \"./registries\",
  \"version_aliases\": \x7b\x7d,
  \"pool_capacity\": 64,
  \"log\": \x7b
    \"level\": \"debug\",
    \"directory\": \"logs\"
  \x7d
\x7d" := by cbv

/-! ### Loading -/

/-- What loading makes of a file: what it gives, and what is in the file then. -/
inductive Loads : Option ByteArray → Except LoadError Settings → ByteArray → Prop
  | held {bytes : ByteArray} {text : String} {s : Settings} (utf8 : bytes = text.toUTF8)
    (holds : ofText text = .ok s) : Loads (some bytes) (.ok s) bytes
  | made : Loads none (.ok standard) standard.text.toUTF8
  | mended {bytes : ByteArray} {text : String} {defect : DocumentDefect} (utf8 : bytes = text.toUTF8)
    (faulty : ofText text = .error defect) :
    Loads (some bytes) (.ok standard) standard.text.toUTF8
  | refused {bytes : ByteArray} (noText : ∀ text : String, bytes ≠ text.toUTF8) :
    Loads (some bytes) (.error (.file .invalidData)) bytes

variable {file : Option ByteArray} {x y : Except LoadError Settings} {b c : ByteArray}

theorem Loads.unique (left : Loads file x b) (right : Loads file y c) : x = y ∧ b = c := by
  cases left with
  | held utf8 holds =>
    cases right with
    | held utf8' holds' =>
      obtain rfl := String.toByteArray_inj.mp (utf8.symm.trans utf8')
      exact ⟨congrArg Except.ok (Except.ok.inj (holds.symm.trans holds')), rfl⟩
    | mended utf8' faulty =>
      obtain rfl := String.toByteArray_inj.mp (utf8.symm.trans utf8')
      cases holds.symm.trans faulty
    | refused noText => exact absurd utf8 (noText _)
  | made =>
    cases right
    exact ⟨rfl, rfl⟩
  | mended utf8 faulty =>
    cases right with
    | held utf8' holds =>
      obtain rfl := String.toByteArray_inj.mp (utf8.symm.trans utf8')
      cases holds.symm.trans faulty
    | mended => exact ⟨rfl, rfl⟩
    | refused noText => exact absurd utf8 (noText _)
  | refused noText =>
    cases right with
    | held utf8 => exact absurd utf8 (noText _)
    | mended utf8 => exact absurd utf8 (noText _)
    | refused => exact ⟨rfl, rfl⟩

/-- What is in a file after loading is loaded as it is. -/
theorem Loads.again (loads : Loads file x b) : Loads (some b) x b := by
  cases loads with
  | held utf8 holds => exact .held utf8 holds
  | made => exact .held rfl (ofText_text (by decide))
  | mended => exact .held rfl (ofText_text (by decide))
  | refused noText => exact .refused noText

theorem readText_existing (bytes : ByteArray) :
    (∃ text, bytes = text.toUTF8 ∧ (OpenFile.existing bytes).readText = (.ok text, ⟨bytes, bytes.size⟩)) ∨
    ((∀ text : String, bytes ≠ text.toUTF8) ∧
      (OpenFile.existing bytes).readText = (.error .invalidData, ⟨bytes, bytes.size⟩)) := by
  have rest : bytes.extract 0 bytes.size = bytes := ByteArray.extract_zero_size
  unfold OpenFile.readText OpenFile.existing
  dsimp only
  rw [rest, Nat.zero_max]
  cases read : String.fromUTF8? bytes with
  | some text => exact Or.inl ⟨text, fromUTF8?_eq_some_iff.mp read, rfl⟩
  | none =>
    refine Or.inr ⟨fun text same => ?_, rfl⟩
    cases read.symm.trans (fromUTF8?_eq_some_iff.mpr same)

theorem restored_eq (file : OpenFile) (cause : Log.Record) :
    (restored file cause).settings = .ok standard ∧
      (restored file cause).file = standard.text.toUTF8 :=
  ⟨rfl, file.bytes_rewritten _⟩

theorem loads (path : String) (file : Option ByteArray) :
    Loads file (load path file).settings (load path file).file := by
  cases file with
  | none =>
    obtain ⟨settings, bytes⟩ := restored_eq .created ⟨.info, "Config file not found, creating file"⟩
    rw [load, settings, bytes]
    exact .made
  | some bytes =>
    obtain ⟨text, utf8, read⟩ | ⟨noText, read⟩ := readText_existing bytes
    · cases holds : ofText text with
      | ok s =>
        simp only [load, read, holds]
        exact .held utf8 holds
      | error defect =>
        obtain ⟨settings, mended⟩ := restored_eq ⟨bytes, bytes.size⟩ ⟨.error, "Invalid config JSON"⟩
        simp only [load, read, holds, settings, mended]
        exact .mended utf8 holds
    · simp only [load, read]
      exact .refused noText

theorem load_text (path : String) {text : String} {s : Settings} (holds : ofText text = .ok s) :
    load path (some text.toUTF8) =
      ⟨.ok s, text.toUTF8, [⟨.info, s!"Loaded config from {path}"⟩]⟩ := by
  obtain ⟨found, utf8, read⟩ | ⟨noText, _⟩ := readText_existing text.toUTF8
  · obtain rfl := String.toByteArray_inj.mp utf8
    simp only [load, read, holds]
  · exact absurd rfl (noText text)

theorem Loads.text {s : Settings} (loads : Loads file (.ok s) b) :
    ∃ text, b = text.toUTF8 ∧ ofText text = .ok s := by
  cases loads with
  | held utf8 holds => exact ⟨_, utf8, holds⟩
  | made => exact ⟨_, rfl, ofText_text (by decide)⟩
  | mended => exact ⟨_, rfl, ofText_text (by decide)⟩

/-- Loading gives what a file holds, or mends it, or leaves it alone. What it gives is in the file then, and
is loaded again without any change. -/
structure Settles (path : String) (file : Option ByteArray) : Prop where
  loads : Loads file (load path file).settings (load path file).file
  stable : (load path (some (load path file).file)).settings = (load path file).settings ∧
    (load path (some (load path file).file)).file = (load path file).file
  held : ∀ s, (load path file).settings = .ok s → ∃ text,
    (load path file).file = text.toUTF8 ∧ ofText text = .ok s ∧
      load path (some text.toUTF8) = ⟨.ok s, text.toUTF8, [⟨.info, s!"Loaded config from {path}"⟩]⟩

theorem settles (path : String) (file : Option ByteArray) : Settles path file where
  loads := loads path file
  stable := (loads path _).unique (loads path file).again
  held s gives := by
    have loads := loads path file
    rw [gives] at loads
    obtain ⟨text, utf8, holds⟩ := loads.text
    exact ⟨text, utf8, holds, load_text path holds⟩

/-- Loading settles every file. The usual settings are read from their own text, settings of which some are
left out are read with the usual ones in their place, and what is read of a text is what stands in it. -/
theorem load_settles (path : String) (file : Option ByteArray) :
    Settles path file ∧ ofText standard.text = .ok standard ∧
      (∀ g : Given, g.Fits → ofText g.text = .ok g.settings) ∧
      ∀ text s, ofText text = .ok s → ∃ j, Json.Document.ofText text = ⟨j, true⟩ ∧ s.Told j :=
  ⟨settles path file, ofText_text (by decide), fun _ => ofText_given, fun _ _ => ofText_told⟩

end Settings
end Voxel
