/-
  MythLab.Storage.PortableDataSetup — the one-time copy of the legacy inventory into the
  portable Data folder (`PortableDataSetup`, `AppPaths`).

  The copy is made in a staging folder beside Data, under a name of its own, and renamed
  to Data as its last step; whatever happens before, a `finally` deletes the staging
  folder. Any step may throw, and one that writes or deletes may have come part of the
  way (`Progress`). SQLite is outside: what a backup of a database holds is `Sqlite`, and
  reading the source changes no file.

  Proved (`import_all_or_nothing`): nothing that was there is changed; Data is then as it
  was, fresh and empty, or the whole copy, and the call returns true exactly for the
  last; the staging folder is gone unless deleting it threw.
-/
import MythLab.Dotnet.Framework
import MythLab.Lib.FileTree

namespace MythLab.Storage

open Lib Dotnet

/-- The names on the way from the root. -/
abbrev Path := List Str

abbrev Bytes := List UInt8

abbrev Files := FileTree Str Bytes

structure AppPaths where
  executableDirectory : Path
  legacyRoot : Path

namespace AppPaths

/-- `Path.GetInvalidFileNameChars()` -/
def isInvalidFileNameChar (c : Char16) : Bool := c.toNat < 32 || (str "\"<>|:*?\\/").contains c

def create (applicationId : Str) (executableDirectory localApplicationDataDirectory : Path) : Except Exn AppPaths := do
  throwIf (isNullOrWhiteSpace applicationId ∨ applicationId.any isInvalidFileNameChar ∨ applicationId = str "." ∨
      applicationId = str "..")
    (.argument "Application ID must be a directory name.")
  pure ⟨executableDirectory, localApplicationDataDirectory ++ [applicationId]⟩

def databaseName : Str := str "inventory.db"
def settingsName : Str := str "settings.json"
def logsName : Str := str "logs"

variable (paths : AppPaths)

def root : Path := paths.executableDirectory ++ [str "Data"]
def logs : Path := paths.root ++ [logsName]

end AppPaths

namespace PortableDataSetup

open FileTree AppPaths

inductive Site where
  | start
  | createDirectory
  | openSource
  | openDestination
  | backup
  | cancellation
  | copySettings
  | move
  | delete
  deriving DecidableEq, Repr

/-- The content of a backup of a database, of which a part may be in its write-ahead log. -/
structure Sqlite where
  backup : Bytes → Option Bytes → Except Exn Bytes

/-- How far a step that throws has come: the pages and the bytes it has written, what it has not yet
    deleted. -/
structure Progress where
  pages : Bytes
  copied : Bytes
  remaining : Path → Bool

abbrev Op (α : Type) := Eff (World Files Site) Exn α

section Program

variable (sqlite : Sqlite) (progress : Progress) (faults : Nat → Fault Exn) (paths : AppPaths)

def sourceDatabase : Path := paths.legacyRoot ++ [databaseName]
def sourceLog : Path := paths.legacyRoot ++ [databaseName ++ str "-wal"]
def sourceSettings : Path := paths.legacyRoot ++ [settingsName]

/-- `paths.Root + ".import-" + Guid.NewGuid().ToString("N")` -/
def staging (guid : Str) : Path := paths.executableDirectory ++ [str "Data" ++ str ".import-" ++ guid]

def createDirectory (p : Path) : Op Unit :=
  FileTree.createDirectory faults .createDirectory (.io "A file with the same name already exists.") p

def ensureCreated : Op Unit := do
  createDirectory faults paths.root
  createDirectory faults paths.logs

def write (file : Path) (bytes : Bytes) (t : Files) : Except Exn Unit × Files :=
  if t.isDirectory file.dropLast ∧ ¬ t.isDirectory file then (.ok (), t.put file (.file bytes))
  else (.error (.io "Could not find a part of the path."), t)

/-- As `write`, of a file that does not exist. -/
def writeNew (file : Path) (bytes : Bytes) (t : Files) : Except Exn Unit × Files :=
  if t file = none then write file bytes t else (.error (.io "The file already exists."), t)

/-- `Directory.Move(source, target)` -/
def move (source target : Path) (t : Files) : Except Exn Unit × Files :=
  if t.isDirectory source ∧ t target = none then (.ok (), t.rename source target)
  else (.error (.io "Cannot create a file when that file already exists."), t)

def copyDatabase (folder : Path) : Op Unit := do
  let w ← Eff.get
  match w.state.contents (sourceDatabase paths) with
  | none => pure ()
  | some bytes => do
    checkpoint faults .openSource
    call faults .openDestination (write (folder ++ [databaseName]) [])
    let content ← Eff.lift (sqlite.backup bytes (w.state.contents (sourceLog paths)))
    call faults .backup (write (folder ++ [databaseName]) progress.pages)
    call faults .backup (write (folder ++ [databaseName]) content)

def copySettings (folder : Path) : Op Unit := do
  let w ← Eff.get
  match w.state.contents (sourceSettings paths) with
  | none => pure ()
  | some bytes => do
    call faults .copySettings (writeNew (folder ++ [settingsName]) progress.copied)
    call faults .copySettings (write (folder ++ [settingsName]) bytes)

/-- `if (Directory.Exists(staging)) Directory.Delete(staging, recursive: true);` -/
def deleteStaging (folder : Path) : Op Unit := do
  let w ← Eff.get
  Eff.provided (w.state.isDirectory folder)
    (do
      call faults .delete fun t => (.ok (), t.removeBelow folder progress.remaining)
      call faults .delete fun t => (.ok (), t.remove folder))
    ()

/-- The copy in the staging folder, and its move to Data. -/
def importInto (folder : Path) : Op Bool := do
  copyDatabase sqlite progress faults paths folder
  checkpoint faults .cancellation
  copySettings progress faults paths folder
  createDirectory faults (folder ++ [logsName])
  checkpoint faults .cancellation
  statement faults .move (move folder paths.root)
  pure true

/-- There is something to import. -/
def hasLegacy (t : Files) : Bool := t.isFile (sourceDatabase paths) || t.isFile (sourceSettings paths)

def prepare (guid : Str) : Op Bool := do
  let w ← Eff.get
  -- an existing Data folder always wins
  if w.state.isDirectory paths.root then do
    ensureCreated faults paths
    pure false
  else if ¬ hasLegacy paths w.state then do
    ensureCreated faults paths
    pure false
  else do
    createDirectory faults (staging paths guid)
    tryFinally (importInto sqlite progress faults paths (staging paths guid))
      (deleteStaging progress faults (staging paths guid))

def prepareAsync (guid : Str) : Op Bool := do
  checkpoint faults .start
  prepare sqlite progress faults paths guid

end Program

/-! ## The copy -/

/-- A Data folder with these files, or one that is being filled. -/
def layout (database settings : Option Bytes) (logs : Bool) : Path → Option (Entry Bytes)
  | [] => some .directory
  | [name] =>
    if name = databaseName then database.map .file
    else if name = settingsName then settings.map .file
    else if name = logsName ∧ logs = true then some .directory
    else none
  | _ :: _ :: _ => none

theorem layout_database (bytes : Bytes) (database settings : Option Bytes) (logs : Bool) (rest : Path) :
    layout (some bytes) settings logs rest =
      if rest = [databaseName] then some (.file bytes) else layout database settings logs rest := by
  match rest with
  | [] => rfl
  | [name] =>
    by_cases h : name = databaseName
    · simp [layout, h]
    · simp [layout, h]
  | _ :: _ :: _ => simp [layout]

theorem layout_settings (bytes : Bytes) (database settings : Option Bytes) (logs : Bool) (rest : Path) :
    layout database (some bytes) logs rest =
      if rest = [settingsName] then some (.file bytes) else layout database settings logs rest := by
  have hne : settingsName ≠ databaseName := by decide
  match rest with
  | [] => rfl
  | [name] =>
    by_cases h : name = settingsName
    · simp [layout, h, hne]
    · simp [layout, h]
  | _ :: _ :: _ => simp [layout]

theorem layout_logs (database settings : Option Bytes) (rest : Path) : layout database settings true rest =
    if rest = [logsName] then some .directory else layout database settings false rest := by
  have hdatabase : logsName ≠ databaseName := by decide
  have hsettings : logsName ≠ settingsName := by decide
  match rest with
  | [] => rfl
  | [name] =>
    by_cases h : name = logsName
    · simp [layout, h, hdatabase, hsettings]
    · simp [layout, h]
  | _ :: _ :: _ => simp [layout]

/-- What the import copies of the database, if it does. -/
def databaseCopy (sqlite : Sqlite) (paths : AppPaths) (t : Files) : Except Exn (Option Bytes) :=
  match t.contents (sourceDatabase paths) with
  | none => .ok none
  | some bytes => (sqlite.backup bytes (t.contents (sourceLog paths))).map some

/-- `after` has in its Data folder the whole copy of what `before` had, and nothing else. -/
def Complete (sqlite : Sqlite) (paths : AppPaths) (before after : Files) : Prop :=
  ∃ database, databaseCopy sqlite paths before = .ok database ∧
    ∀ rest, after (paths.root ++ rest) = layout database (before.contents (sourceSettings paths)) true rest

def deletionThrew (calls : List (Lib.Call Site)) : Bool := calls.any fun c => c.site = .delete && c.threw

theorem deletionThrew_append (calls new : List (Lib.Call Site)) :
    deletionThrew (calls ++ new) = (deletionThrew calls || deletionThrew new) := List.any_append

theorem deletionThrew_of_sites {site : Site} (hsite : site ≠ .delete) {new : List (Lib.Call Site)}
    (h : ∀ c ∈ new, c.site = site) : deletionThrew new = false := by
  refine List.any_eq_false.mpr ?_
  intro c hc
  rw [h c hc]
  simp [hsite]

/-! ## The staging folder -/

/-- The tree `before` outside of `folder`, with directories on the way to it. -/
def Around (before : Files) (folder : Path) (t : Files) : Prop :=
  ∀ q, ¬ folder <+: q → t q = before q ∨ (before q = none ∧ q <+: folder ∧ t q = some .directory)

/-- So is `t`, and `folder` is being filled. -/
structure Staged (before : Files) (folder : Path) (database settings : Option Bytes) (logs : Bool) (t : Files) : Prop where
  around : Around before folder t
  inside : ∀ rest, t (folder ++ rest) = layout database settings logs rest

section Staged

variable {before t : Files} {folder : Path} {database settings : Option Bytes} {logs : Bool}

theorem Staged.directory (h : Staged before folder database settings logs t) : t folder = some .directory := by
  have hinside := h.inside []
  rwa [List.append_nil] at hinside

theorem put_child {name : Str} {e : Entry Bytes} {rest : Path} :
    t.put (folder ++ [name]) e (folder ++ rest) = if rest = [name] then some e else t (folder ++ rest) :=
  if_congr (List.append_right_inj folder) rfl rfl

theorem Around.put (h : Around before folder t) (name : Str) (e : Entry Bytes) :
    Around before folder (t.put (folder ++ [name]) e) := by
  intro q hq
  have hne : q ≠ folder ++ [name] := fun he => hq (he ▸ List.prefix_append _ _)
  rw [put_of_ne e hne]
  exact h q hq

theorem Staged.put_database (h : Staged before folder database settings logs t) (bytes : Bytes) :
    Staged before folder (some bytes) settings logs (t.put (folder ++ [databaseName]) (.file bytes)) := by
  refine ⟨h.around.put _ _, ?_⟩
  intro rest
  rw [put_child, layout_database bytes database, h.inside]

theorem Staged.put_settings (h : Staged before folder database settings logs t) (bytes : Bytes) :
    Staged before folder database (some bytes) logs (t.put (folder ++ [settingsName]) (.file bytes)) := by
  refine ⟨h.around.put _ _, ?_⟩
  intro rest
  rw [put_child, layout_settings bytes database settings, h.inside]

/-- A file of the folder is written; nothing else that is there can be in its place. -/
theorem Staged.write_database (h : Staged before folder database settings logs t) (bytes : Bytes) :
    write (folder ++ [databaseName]) bytes t = (.ok (), t.put (folder ++ [databaseName]) (.file bytes)) := by
  have hfile : ¬ t.isDirectory (folder ++ [databaseName]) = true := by
    rw [isDirectory_iff, h.inside]
    cases database with
    | none => exact fun hf => (by cases hf)
    | some bytes => exact fun hf => (by cases hf)
  unfold write
  rw [List.dropLast_concat, if_pos ⟨isDirectory_iff.mpr h.directory, hfile⟩]

theorem Staged.write_settings (h : Staged before folder database settings logs t) (bytes : Bytes) :
    write (folder ++ [settingsName]) bytes t = (.ok (), t.put (folder ++ [settingsName]) (.file bytes)) := by
  have hfile : ¬ t.isDirectory (folder ++ [settingsName]) = true := by
    rw [isDirectory_iff, h.inside]
    cases settings with
    | none => exact fun hf => (by cases hf)
    | some bytes => exact fun hf => (by cases hf)
  unfold write
  rw [List.dropLast_concat, if_pos ⟨isDirectory_iff.mpr h.directory, hfile⟩]

theorem Around.contents (h : Around before folder t) {q : Path} (hq : ¬ folder <+: q) : t.contents q = before.contents q := by
  unfold FileTree.contents
  rcases h q hq with he | ⟨hnone, -, he⟩
  · rw [he]
  · rw [he, hnone]

theorem Around.kept (h : Around before folder t) {q : Path} (hq : ¬ folder <+: q) (hb : before q ≠ none) : t q = before q :=
  (h q hq).resolve_right fun hnew => hb hnew.1

end Staged

/-- The places the import reads and writes do not meet the staging folder. -/
structure Apart (paths : AppPaths) (folder : Path) : Prop where
  database : ¬ folder <+: sourceDatabase paths
  log : ¬ folder <+: sourceLog paths
  settings : ¬ folder <+: sourceSettings paths
  root : ¬ folder <+: paths.root
  folder : ¬ paths.root <+: folder

/-! ## What the steps do -/

section Steps

variable {sqlite : Sqlite} {progress : Progress} {faults : Nat → Fault Exn} {paths : AppPaths} {before : Files}
  {folder : Path} {w : World Files Site} {α : Type}

/-- The staging folder is there, no deletion has thrown. -/
def Filling (before : Files) (folder : Path) (w : World Files Site) : Prop :=
  deletionThrew w.calls = false ∧ ∃ database settings logs, Staged before folder database settings logs w.state

theorem deletionThrew_snoc {site : Site} (hsite : site ≠ .delete) {calls : List (Lib.Call Site)}
    (hcalls : deletionThrew calls = false) (threw : Bool) : deletionThrew (calls ++ [⟨site, threw⟩]) = false := by
  rw [deletionThrew_append, hcalls, deletionThrew_of_sites hsite]
  · rfl
  · intro c hc
    rw [List.mem_singleton.mp hc]

/-- A step that writes into the staging folder: it goes on, or it throws and has done all or nothing. -/
theorem wp_filling_call {site : Site} (hsite : site ≠ .delete) {run : Files → Except Exn Unit × Files} {after : Files}
    {next : Unit → Op α} {Q : Except Exn α → World Files Site → Prop} (hfilling : Filling before folder w)
    (hrun : run w.state = (.ok (), after)) (hafter : ∃ database settings logs, Staged before folder database settings logs after)
    (hnext : ∀ calls, deletionThrew calls = false → (next ()).wp Q ⟨after, calls⟩)
    (herror : ∀ e w', Filling before folder w' → Q (.error e) w') : (call faults site run >>= next).wp Q w := by
  rw [Eff.wp_bind]
  refine wp_call ?_ ?_
  · rw [hrun]
    exact hnext _ (deletionThrew_snoc hsite hfilling.1 _)
  · intro tookEffect e _
    rw [hrun]
    refine herror e _ ⟨deletionThrew_snoc hsite hfilling.1 _, ?_⟩
    cases tookEffect
    · exact hfilling.2
    · exact hafter

theorem wp_filling_checkpoint {site : Site} (hsite : site ≠ .delete) {next : Unit → Op α}
    {Q : Except Exn α → World Files Site → Prop} (hfilling : Filling before folder w)
    (hnext : ∀ calls, deletionThrew calls = false → (next ()).wp Q ⟨w.state, calls⟩)
    (herror : ∀ e w', Filling before folder w' → Q (.error e) w') : (checkpoint faults site >>= next).wp Q w := by
  rw [Eff.wp_bind]
  refine wp_statement ?_ ?_
  · exact hnext _ (deletionThrew_snoc hsite hfilling.1 _)
  · exact fun e _ => herror e _ ⟨deletionThrew_snoc hsite hfilling.1 _, hfilling.2⟩

theorem wp_copyDatabase (hapart : Apart paths folder) (hcalls : deletionThrew w.calls = false)
    (hstaged : Staged before folder none none false w.state) :
    (copyDatabase sqlite progress faults paths folder).wp (fun r w' => Filling before folder w' ∧
      ∀ u, r = .ok u → ∃ database, databaseCopy sqlite paths before = .ok database ∧
        Staged before folder database none false w'.state) w := by
  have hfilling : Filling before folder w := ⟨hcalls, _, _, _, hstaged⟩
  have hdatabase := hstaged.around.contents hapart.database
  have hlog := hstaged.around.contents hapart.log
  unfold copyDatabase
  rw [Eff.wp_get_bind]
  split
  · rename_i hnone
    refine ⟨hfilling, fun u _ => ⟨none, ?_, hstaged⟩⟩
    unfold databaseCopy
    rw [← hdatabase, hnone]
  · rename_i bytes hbytes
    refine wp_filling_checkpoint (by decide) hfilling ?_ fun e w' h => ⟨h, fun u hu => (by cases hu)⟩
    intro calls hcalls
    have hopened := hstaged.put_database []
    refine wp_filling_call (by decide) ⟨hcalls, _, _, _, hstaged⟩ (hstaged.write_database []) ⟨_, _, _, hopened⟩ ?_
      fun e w' h => ⟨h, fun u hu => (by cases hu)⟩
    intro calls hcalls
    refine Eff.wp_lift_step (fun e _ => ⟨⟨hcalls, _, _, _, hopened⟩, fun u hu => (by cases hu)⟩) ?_
    intro content hcontent
    have hpaged := hopened.put_database progress.pages
    refine wp_filling_call (by decide) ⟨hcalls, _, _, _, hopened⟩ (hopened.write_database progress.pages)
      ⟨_, _, _, hpaged⟩ ?_ fun e w' h => ⟨h, fun u hu => (by cases hu)⟩
    intro calls hcalls
    have hcopied := hpaged.put_database content
    refine wp_call ?_ ?_
    · rw [hpaged.write_database content]
      refine ⟨⟨deletionThrew_snoc (by decide) hcalls _, _, _, _, hcopied⟩, fun u _ => ⟨some content, ?_, hcopied⟩⟩
      unfold databaseCopy
      rw [← hdatabase, hbytes, ← hlog]
      dsimp only
      rw [hcontent]
      rfl
    · intro tookEffect e _
      rw [hpaged.write_database content]
      refine ⟨⟨deletionThrew_snoc (by decide) hcalls _, ?_⟩, fun u hu => (by cases hu)⟩
      cases tookEffect
      · exact ⟨_, _, _, hpaged⟩
      · exact ⟨_, _, _, hcopied⟩

theorem wp_copySettings {database : Option Bytes} (hapart : Apart paths folder) (hcalls : deletionThrew w.calls = false)
    (hstaged : Staged before folder database none false w.state) :
    (copySettings progress faults paths folder).wp (fun r w' => Filling before folder w' ∧
      ∀ u, r = .ok u → Staged before folder database (before.contents (sourceSettings paths)) false w'.state) w := by
  have hfilling : Filling before folder w := ⟨hcalls, _, _, _, hstaged⟩
  have hsettings := hstaged.around.contents hapart.settings
  unfold copySettings
  rw [Eff.wp_get_bind]
  split
  · rename_i hnone
    refine ⟨hfilling, fun u _ => ?_⟩
    rw [← hsettings, hnone]
    exact hstaged
  · rename_i bytes hbytes
    have hstarted := hstaged.put_settings progress.copied
    have hnew : writeNew (folder ++ [settingsName]) progress.copied w.state =
        (.ok (), w.state.put (folder ++ [settingsName]) (.file progress.copied)) := by
      unfold writeNew
      rw [hstaged.inside, if_pos (by rfl)]
      exact hstaged.write_settings progress.copied
    refine wp_filling_call (by decide) hfilling hnew ⟨_, _, _, hstarted⟩ ?_
      fun e w' h => ⟨h, fun u hu => (by cases hu)⟩
    intro calls hcalls
    have hcopied := hstarted.put_settings bytes
    refine wp_call ?_ ?_
    · rw [hstarted.write_settings bytes]
      refine ⟨⟨deletionThrew_snoc (by decide) hcalls _, _, _, _, hcopied⟩, fun u _ => ?_⟩
      rw [← hsettings, hbytes]
      exact hcopied
    · intro tookEffect e _
      rw [hstarted.write_settings bytes]
      refine ⟨⟨deletionThrew_snoc (by decide) hcalls _, ?_⟩, fun u hu => (by cases hu)⟩
      cases tookEffect
      · exact ⟨_, _, _, hstarted⟩
      · exact ⟨_, _, _, hcopied⟩

theorem made_deletionThrew {new : Path → Prop} {w' : World Files Site} (h : Made .createDirectory new w w') :
    deletionThrew w'.calls = deletionThrew w.calls := by
  obtain ⟨made, hcalls, hsites⟩ := h.calls
  rw [hcalls, deletionThrew_append, deletionThrew_of_sites (by decide) hsites, Bool.or_false]

theorem Grows.around {p : Path} {t u : Files} (h : Grows (· <+: p) t u) (ht : Around before folder t)
    (hp : ∀ q, ¬ folder <+: q → q <+: p → q <+: folder) : Around before folder u := by
  intro q hq
  rcases h q with he | ⟨hnone, hfront, hmade⟩
  · rw [he]
    exact ht q hq
  · rcases ht q hq with he | ⟨-, -, hd⟩
    · exact Or.inr ⟨he.symm.trans hnone, hp q hq hfront, hmade⟩
    · rw [hd] at hnone
      cases hnone

/-- The staging folder is created, empty, or it is not there. -/
theorem wp_createStaging (htree : IsTree w.state) (hfresh : w.state folder = none) (hcalls : deletionThrew w.calls = false) :
    (createDirectory faults folder).wp (fun r w' => deletionThrew w'.calls = false ∧ Around w.state folder w'.state ∧
      (∀ u, r = .ok u → Staged w.state folder none none false w'.state) ∧
      ∀ e, r = .error e → ∀ q, folder <+: q → w'.state q = none) w := by
  refine Eff.wp_mono (wp_createDirectory folder) ?_
  intro r w' ⟨hmade, hok, herror⟩
  have haround : Around w.state folder w'.state :=
    Grows.around hmade.entries (fun q _ => Or.inl rfl) fun _ _ h => h
  have hbelow {rest : Path} (hrest : rest ≠ []) : w'.state (folder ++ rest) = none := by
    rw [hmade.entries.of_not]
    · exact htree.absent_below hfresh (List.prefix_append _ _)
    · intro hfront
      have hlength := hfront.length_le
      rw [List.length_append] at hlength
      exact hrest (List.eq_nil_of_length_eq_zero (by omega))
  refine ⟨(made_deletionThrew hmade).trans hcalls, haround, ?_, ?_⟩
  · intro u hu
    refine ⟨haround, ?_⟩
    intro rest
    match rest with
    | [] =>
      rw [List.append_nil]
      exact hok u hu
    | [name] =>
      rw [hbelow (List.cons_ne_nil _ _)]
      simp [layout]
    | _ :: _ :: _ => exact hbelow (List.cons_ne_nil _ _)
  · intro e he q hq
    obtain ⟨rest, rfl⟩ := hq
    by_cases hrest : rest = []
    · rw [hrest, List.append_nil, herror e he, hfresh]
    · exact hbelow hrest

theorem wp_createLogs {database settings : Option Bytes} (hcalls : deletionThrew w.calls = false)
    (hstaged : Staged before folder database settings false w.state) :
    (createDirectory faults (folder ++ [logsName])).wp (fun r w' => Filling before folder w' ∧
      ∀ u, r = .ok u → Staged before folder database settings true w'.state) w := by
  refine Eff.wp_mono (wp_createDirectory (folder ++ [logsName])) ?_
  intro r w' ⟨hmade, hok, herror⟩
  have haround : Around before folder w'.state := by
    refine Grows.around hmade.entries hstaged.around ?_
    intro q hq hfront
    rcases List.prefix_concat_iff.mp hfront with rfl | hfront
    · exact absurd (List.prefix_append _ _) hq
    · exact hfront
  have hother {rest : Path} (hrest : rest ≠ [logsName]) : w'.state (folder ++ rest) = w.state (folder ++ rest) := by
    rcases hmade.entries (folder ++ rest) with he | ⟨hnone, hfront, -⟩
    · exact he
    · have hfront : rest <+: [] ++ [logsName] := (List.prefix_append_right_inj folder).mp hfront
      rcases List.prefix_concat_iff.mp hfront with he | hnil
      · exact absurd he hrest
      · rw [List.prefix_nil.mp hnil, List.append_nil, hstaged.directory] at hnone
        cases hnone
  have hlogs : layout database settings false [logsName] = none := by
    have hdatabase : logsName ≠ databaseName := by decide
    have hsettings : logsName ≠ settingsName := by decide
    simp [layout, hdatabase, hsettings]
  have hcalls := (made_deletionThrew hmade).trans hcalls
  cases r with
  | error e =>
    refine ⟨⟨hcalls, database, settings, false, haround, ?_⟩, fun u hu => (by cases hu)⟩
    intro rest
    by_cases hrest : rest = [logsName]
    · rw [hrest, herror e rfl, hstaged.inside]
    · rw [hother hrest, hstaged.inside]
  | ok u =>
    have hdone : Staged before folder database settings true w'.state := by
      refine ⟨haround, ?_⟩
      intro rest
      rw [layout_logs]
      split
      · rename_i hrest
        rw [hrest]
        exact hok u rfl
      · rename_i hrest
        rw [hother hrest, hstaged.inside]
    exact ⟨⟨hcalls, _, _, _, hdone⟩, fun _ _ => hdone⟩

/-- The copy is whole, and at Data; `t` is the tree just before the move. -/
def Moved (sqlite : Sqlite) (paths : AppPaths) (before : Files) (folder : Path) (after : Files) : Prop :=
  ∃ database t, databaseCopy sqlite paths before = .ok database ∧
    Staged before folder database (before.contents (sourceSettings paths)) true t ∧ t paths.root = none ∧
    after = t.rename folder paths.root

theorem wp_importInto (hapart : Apart paths folder) (hcalls : deletionThrew w.calls = false)
    (hstaged : Staged before folder none none false w.state) :
    (importInto sqlite progress faults paths folder).wp (fun r w' => (∃ e, r = .error e ∧ Filling before folder w') ∨
      (r = .ok true ∧ Moved sqlite paths before folder w'.state)) w := by
  unfold importInto
  rw [Eff.wp_bind]
  refine Eff.wp_mono (wp_copyDatabase hapart hcalls hstaged) ?_
  intro r w' ⟨hfilling, hok⟩
  cases r with
  | error e => exact Or.inl ⟨e, rfl, hfilling⟩
  | ok u =>
    obtain ⟨database, hdatabase, hstaged⟩ := hok u rfl
    refine wp_filling_checkpoint (by decide) hfilling ?_ fun e w' h => Or.inl ⟨e, rfl, h⟩
    intro calls hcalls
    rw [Eff.wp_bind]
    refine Eff.wp_mono (wp_copySettings hapart hcalls hstaged) ?_
    intro r w' ⟨hfilling, hok⟩
    cases r with
    | error e => exact Or.inl ⟨e, rfl, hfilling⟩
    | ok u =>
      have hstaged := hok u rfl
      dsimp only
      rw [Eff.wp_bind]
      refine Eff.wp_mono (wp_createLogs hfilling.1 hstaged) ?_
      intro r w' ⟨hfilling, hok⟩
      cases r with
      | error e => exact Or.inl ⟨e, rfl, hfilling⟩
      | ok u =>
        have hstaged := hok u rfl
        refine wp_filling_checkpoint (by decide) hfilling ?_ fun e w' h => Or.inl ⟨e, rfl, h⟩
        intro calls hcalls
        rw [Eff.wp_bind]
        refine wp_statement ?_ fun e _ => Or.inl ⟨e, rfl, deletionThrew_snoc (by decide) hcalls _, _, _, _, hstaged⟩
        by_cases hmove : w'.state.isDirectory folder = true ∧ w'.state paths.root = none
        · have hrun : move folder paths.root w'.state = (.ok (), w'.state.rename folder paths.root) := if_pos hmove
          rw [hrun]
          exact Or.inr ⟨rfl, database, w'.state, hdatabase, hstaged, hmove.2, rfl⟩
        · have hrun : move folder paths.root w'.state =
              (.error (.io "Cannot create a file when that file already exists."), w'.state) := if_neg hmove
          rw [hrun]
          exact Or.inl ⟨_, rfl, deletionThrew_snoc (by decide) hcalls _, _, _, _, hstaged⟩

theorem Around.congr {t u : Files} (h : Around before folder t) (hu : ∀ q, ¬ folder <+: q → u q = t q) :
    Around before folder u := by
  intro q hq
  rw [hu q hq]
  exact h q hq

/-- Afterwards the staging folder is gone, or its deletion threw. -/
theorem wp_deleteStaging (haround : Around before folder w.state) (hdirectory : w.state folder = some .directory) :
    (deleteStaging progress faults folder).wp (fun _ w' => Around before folder w'.state ∧
      ((∀ q, folder <+: q → w'.state q = none) ∨ deletionThrew w'.calls = true)) w := by
  have hpart : Around before folder (w.state.removeBelow folder progress.remaining) := by
    refine haround.congr ?_
    intro q hq
    exact if_neg fun h => hq h.1
  have hrest (t : Files) (ht : Around before folder t) : Around before folder (t.remove folder) := by
    refine ht.congr ?_
    intro q hq
    exact if_neg hq
  have hthrew (calls : List (Lib.Call Site)) : deletionThrew (calls ++ [⟨.delete, true⟩]) = true := by
    rw [deletionThrew_append]
    exact Bool.or_true _
  unfold deleteStaging
  rw [Eff.wp_get_bind]
  refine Eff.wp_provided ?_ fun hnot => absurd (isDirectory_iff.mpr hdirectory) hnot
  intro _
  rw [Eff.wp_bind]
  refine wp_call ?_ ?_
  · refine wp_call ⟨hrest _ hpart, Or.inl fun q hq => if_pos hq⟩ ?_
    intro tookEffect e _
    refine ⟨?_, Or.inr (hthrew _)⟩
    cases tookEffect
    · exact hpart
    · exact hrest _ hpart
  · intro tookEffect e _
    refine ⟨?_, Or.inr (hthrew _)⟩
    cases tookEffect
    · exact haround
    · exact hpart

/-- The import: undone, but for a staging folder whose deletion threw, or done. -/
theorem wp_import (hapart : Apart paths folder) (hcalls : deletionThrew w.calls = false)
    (hstaged : Staged before folder none none false w.state) :
    (tryFinally (importInto sqlite progress faults paths folder) (deleteStaging progress faults folder)).wp (fun r w' =>
      (∃ e, r = .error e ∧ Around before folder w'.state ∧
        ((∀ q, folder <+: q → w'.state q = none) ∨ deletionThrew w'.calls = true)) ∨
      (r = .ok true ∧ Moved sqlite paths before folder w'.state)) w := by
  rw [Eff.wp_finally]
  refine Eff.wp_mono (wp_importInto hapart hcalls hstaged) ?_
  intro r w' hr
  rcases hr with ⟨e, rfl, -, database, settings, logs, hfilled⟩ | ⟨rfl, hmoved⟩
  · refine Eff.wp_mono (wp_deleteStaging hfilled.around hfilled.directory) ?_
    intro r w'' hgone
    cases r with
    | error e' => exact Or.inl ⟨e', rfl, hgone⟩
    | ok _ => exact Or.inl ⟨e, rfl, hgone⟩
  · -- the move took the staging folder away
    have hgone : w'.state.isDirectory folder = false := by
      obtain ⟨_, t, -, -, -, hafter⟩ := hmoved
      rw [hafter]
      unfold isDirectory
      rw [rename_gone hapart.folder (List.prefix_refl _)]
    unfold deleteStaging
    rw [Eff.wp_get_bind]
    refine Eff.wp_provided (fun hd => ?_) fun _ => Or.inr ⟨rfl, hmoved⟩
    rw [hgone] at hd
    cases hd

theorem wp_ensureCreated : (ensureCreated faults paths).wp (fun _ w' => Made .createDirectory (· <+: paths.logs) w w') w := by
  have hroot : ∀ q, q <+: paths.root → q <+: paths.logs := fun q hq => hq.trans (List.prefix_append _ _)
  unfold ensureCreated
  rw [Eff.wp_bind]
  refine Eff.wp_mono (wp_createDirectory paths.root) ?_
  rintro r w' ⟨hmade, -, -⟩
  cases r with
  | error e => exact hmade.mono hroot
  | ok _ =>
    refine Eff.wp_mono (wp_createDirectory paths.logs) ?_
    rintro r w'' ⟨hmade', -, -⟩
    exact (hmade.mono hroot).trans hmade'

end Steps

/-! ## All or nothing -/

/-- What a call may leave: `before` was there when it was made, `w` is there when it ends with `r`. -/
structure Outcome (sqlite : Sqlite) (paths : AppPaths) (guid : Str) (before : Files) (r : Except Exn Bool)
    (w : World Files Site) : Prop where
  kept : ∀ q, before q ≠ none → w.state q = before q
  existing : before paths.root = some .directory → r ≠ .ok true ∧
    ∀ q, w.state q = before q ∨ (before q = none ∧ q = paths.logs ∧ w.state q = some .directory)
  folder : before paths.root ≠ some .directory → w.state paths.root ≠ some .directory ∨
    (hasLegacy paths before = false ∧ ∃ logs, ∀ rest, w.state (paths.root ++ rest) = layout none none logs rest) ∨
    (hasLegacy paths before = true ∧ Complete sqlite paths before w.state)
  imported : r = .ok true ↔
    before paths.root ≠ some .directory ∧ hasLegacy paths before = true ∧ Complete sqlite paths before w.state
  staging : (∀ q, staging paths guid <+: q → w.state q = none) ∨ deletionThrew w.calls = true

section Outcome

variable {sqlite : Sqlite} {paths : AppPaths} {guid : Str} {before : Files} {w : World Files Site}

theorem staging_not_above {p : Path} {name : Str} (hname : name.head? ≠ some (chr 'D')) (hp : before p ≠ none)
    (htree : IsTree before) (hfresh : before (staging paths guid) = none) : ¬ staging paths guid <+: p ++ [name] := by
  intro h
  rcases List.prefix_concat_iff.mp h with he | hfront
  · obtain ⟨-, hlast⟩ := List.append_inj' he rfl
    rw [← List.singleton_inj.mp hlast] at hname
    exact hname rfl
  · exact hp (htree.absent_below hfresh hfront)

theorem staging_ne_root (guid : Str) : str "Data" ++ str ".import-" ++ guid ≠ str "Data" := by
  intro he
  have hlength := congrArg List.length he
  rw [List.length_append, List.length_append] at hlength
  have himport : (str ".import-").length = 8 := rfl
  omega

theorem apart_of_legacy (htree : IsTree before) (hfresh : before (staging paths guid) = none)
    (hlegacy : hasLegacy paths before = true) : Apart paths (staging paths guid) := by
  have hroot : before paths.legacyRoot ≠ none := by
    have hsome : ∃ name, before (paths.legacyRoot ++ [name]) ≠ none := by
      rcases Bool.or_eq_true_iff.mp hlegacy with h | h
      · obtain ⟨bytes, hbytes⟩ := isFile_iff.mp h
        exact ⟨databaseName, fun hnone => (by cases hbytes.symm.trans hnone)⟩
      · obtain ⟨bytes, hbytes⟩ := isFile_iff.mp h
        exact ⟨settingsName, fun hnone => (by cases hbytes.symm.trans hnone)⟩
    obtain ⟨name, hname⟩ := hsome
    rw [htree _ name hname]
    exact Option.some_ne_none _
  have hne := staging_ne_root guid
  refine ⟨staging_not_above (by decide) hroot htree hfresh, staging_not_above (by decide) hroot htree hfresh,
    staging_not_above (by decide) hroot htree hfresh, ?_, ?_⟩
  · intro h
    have h := (List.prefix_append_right_inj paths.executableDirectory).mp h
    exact hne (List.singleton_inj.mp (h.eq_of_length rfl))
  · intro h
    have h := (List.prefix_append_right_inj paths.executableDirectory).mp h
    exact hne (List.singleton_inj.mp (h.eq_of_length rfl)).symm

theorem Complete.root {after : Files} (h : Complete sqlite paths before after) : after paths.root = some .directory := by
  obtain ⟨_, -, hlayout⟩ := h
  have hroot := hlayout []
  rwa [List.append_nil] at hroot

/-- The log folder does not lead to the staging folder. -/
theorem staging_not_toward_logs {q : Path} (hq : staging paths guid <+: q) : ¬ q <+: paths.logs := by
  intro h
  have hstaging : staging paths guid <+: paths.logs := hq.trans h
  have hroot : paths.root <+: paths.logs := List.prefix_append _ _
  have hfront : staging paths guid <+: paths.root := by
    refine List.prefix_of_prefix_length_le hstaging hroot ?_
    simp [staging, AppPaths.root]
  have h := (List.prefix_append_right_inj paths.executableDirectory).mp hfront
  exact staging_ne_root guid (List.singleton_inj.mp (h.eq_of_length rfl))

/-- In a Data folder that was there only the log folder can be new. -/
theorem grows_existing {t : Files} (htree : IsTree before) (hgrows : Grows (· <+: paths.logs) before t)
    (hroot : before paths.root = some .directory) (q : Path) :
    t q = before q ∨ before q = none ∧ q = paths.logs ∧ t q = some .directory := by
  refine (hgrows q).imp_right ?_
  intro ⟨hnone, hfront, hmade⟩
  refine ⟨hnone, ?_, hmade⟩
  rcases List.prefix_concat_iff.mp hfront with he | hfront
  · exact he
  · -- the folders above Data are there
    obtain ⟨rest, hrest⟩ := hfront
    by_cases hnil : rest = []
    · rw [hnil, List.append_nil] at hrest
      rw [hrest, hroot] at hnone
      cases hnone
    · have hq := htree.directory (p := q) hnil (by rw [hrest, hroot]; exact Option.some_ne_none _)
      rw [hq] at hnone
      cases hnone

/-- A Data folder that was not there has nothing in it, but perhaps its log folder. -/
theorem grows_layout {t : Files} (htree : IsTree before) (hgrows : Grows (· <+: paths.logs) before t)
    (hroot : before paths.root ≠ some .directory) (hdata : t paths.root = some .directory) (rest : Path) :
    t (paths.root ++ rest) = layout none none (t.isDirectory paths.logs) rest := by
  have hnone {rest : Path} (hrest : rest ≠ []) : before (paths.root ++ rest) = none :=
    htree.absent hroot (List.prefix_append _ _) fun he => hrest (List.append_right_eq_self.mp he)
  match rest with
  | [] => rwa [List.append_nil]
  | [name] =>
    by_cases hlogs : name = logsName
    · subst hlogs
      show t paths.logs = layout none none _ [logsName]
      have hlogs : before paths.logs = none := hnone (List.cons_ne_nil _ _)
      rcases hgrows paths.logs with he | ⟨-, -, he⟩
      · unfold isDirectory
        rw [he, hlogs]
        rfl
      · unfold isDirectory
        rw [he]
        rfl
    · have hother : ¬ paths.root ++ [name] <+: paths.logs := by
        intro h
        have h := (List.prefix_append_right_inj paths.root).mp h
        exact hlogs (List.singleton_inj.mp (h.eq_of_length rfl))
      rw [hgrows.of_not hother, hnone (List.cons_ne_nil _ _)]
      simp [layout, hlogs]
  | first :: second :: more =>
    have hother : ¬ paths.root ++ first :: second :: more <+: paths.logs := by
      intro h
      have hlength := ((List.prefix_append_right_inj paths.root).mp h).length_le
      simp at hlength
    rw [hgrows.of_not hother, hnone (List.cons_ne_nil _ _)]
    rfl

/-- A call that only created folders, where there is a Data folder or nothing to import. -/
theorem outcome_created {r : Except Exn Bool} (htree : IsTree before) (hfresh : before (staging paths guid) = none)
    (hgrows : Grows (· <+: paths.logs) before w.state) (hr : r ≠ .ok true)
    (hno : before paths.root = some .directory ∨ hasLegacy paths before = false) : Outcome sqlite paths guid before r w where
  kept _ hq := hgrows.kept hq
  existing hroot := ⟨hr, grows_existing htree hgrows hroot⟩
  folder hroot := by
    by_cases hdata : w.state paths.root = some .directory
    · have hlegacy := hno.resolve_left hroot
      exact Or.inr (Or.inl ⟨hlegacy, w.state.isDirectory paths.logs, grows_layout htree hgrows hroot hdata⟩)
    · exact Or.inl hdata
  imported := by
    refine ⟨fun h => absurd h hr, ?_⟩
    rintro ⟨hroot, hlegacy, -⟩
    rw [hno.resolve_left hroot] at hlegacy
    cases hlegacy
  staging := by
    refine Or.inl ?_
    intro q hq
    rw [hgrows.of_not (staging_not_toward_logs hq)]
    exact htree.absent_below hfresh hq

/-- An import that was undone. -/
theorem outcome_undone {e : Exn} (htree : IsTree before) (hfresh : before (staging paths guid) = none)
    (hapart : Apart paths (staging paths guid)) (hroot : before paths.root ≠ some .directory)
    (haround : Around before (staging paths guid) w.state)
    (hgone : (∀ q, staging paths guid <+: q → w.state q = none) ∨ deletionThrew w.calls = true) :
    Outcome sqlite paths guid before (.error e) w := by
  have hdata : w.state paths.root ≠ some .directory := by
    rcases haround paths.root hapart.root with he | ⟨-, hfront, -⟩
    · rwa [he]
    · exact absurd hfront hapart.folder
  exact
    { kept := fun q hq => haround.kept (fun h => hq (htree.absent_below hfresh h)) hq
      existing := fun h => absurd h hroot
      folder := fun _ => Or.inl hdata
      imported := ⟨fun h => (by cases h), fun h => absurd h.2.2.root hdata⟩
      staging := hgone }

/-- An import that was done. -/
theorem outcome_moved (htree : IsTree before) (hfresh : before (staging paths guid) = none)
    (hapart : Apart paths (staging paths guid)) (hroot : before paths.root ≠ some .directory)
    (hlegacy : hasLegacy paths before = true) (hmoved : Moved sqlite paths before (staging paths guid) w.state) :
    Outcome sqlite paths guid before (.ok true) w := by
  obtain ⟨database, t, hdatabase, hstaged, hfree, hafter⟩ := hmoved
  have hcomplete : Complete sqlite paths before w.state := by
    refine ⟨database, hdatabase, ?_⟩
    intro rest
    rw [hafter, rename_append, hstaged.inside]
  exact
    { kept := by
        intro q hq
        have hstaging : ¬ staging paths guid <+: q := fun h => hq (htree.absent_below hfresh h)
        have hdata : ¬ paths.root <+: q := by
          intro h
          by_cases he : q = paths.root
          · subst he
            rw [← hstaged.around.kept hapart.root hq] at hq
            exact hq hfree
          · exact hq (htree.absent hroot h he)
        rw [hafter, rename_other hdata hstaging]
        exact hstaged.around.kept hstaging hq
      existing := fun h => absurd h hroot
      folder := fun _ => Or.inr (Or.inr ⟨hlegacy, hcomplete⟩)
      imported := ⟨fun _ => ⟨hroot, hlegacy, hcomplete⟩, fun _ => rfl⟩
      staging := by
        refine Or.inl ?_
        intro q hq
        have hdata : ¬ paths.root <+: q := by
          intro h
          refine hapart.folder (List.prefix_of_prefix_length_le h hq ?_)
          simp [staging, AppPaths.root]
        rw [hafter]
        exact rename_gone hdata hq }

end Outcome

/-- From every tree, whichever steps throw or see the cancellation and however far they have come:
    everything that was there is as it was. A Data folder that existed at most gains its log folder.
    Otherwise Data is no folder, or (with nothing to import) the fresh layout, perhaps without its log
    folder, or the whole copy of the legacy files and nothing else; the last exactly when the call
    returns true. Nothing is left at the staging folder, unless deleting it threw. -/
theorem import_all_or_nothing (sqlite : Sqlite) (progress : Progress) (faults : Nat → Fault Exn) (paths : AppPaths)
    (guid : Str) (before : Files) (htree : IsTree before) (hfresh : before (staging paths guid) = none) :
    Outcome sqlite paths guid before (prepareAsync sqlite progress faults paths guid ⟨before, []⟩).1
      (prepareAsync sqlite progress faults paths guid ⟨before, []⟩).2 := by
  have hend : (prepareAsync sqlite progress faults paths guid).wp (Outcome sqlite paths guid before) ⟨before, []⟩ := by
    unfold prepareAsync
    rw [Eff.wp_bind]
    refine wp_statement ?_ ?_
    · show (prepare sqlite progress faults paths guid).wp _ ⟨before, [⟨.start, false⟩]⟩
      unfold prepare
      rw [Eff.wp_get_bind]
      refine Eff.wp_ite ?_ fun hroot => Eff.wp_ite ?_ ?_
      · intro hroot
        rw [Eff.wp_bind]
        refine Eff.wp_mono wp_ensureCreated ?_
        intro r w' hmade
        cases r with
        | error e => exact outcome_created htree hfresh hmade.entries (fun h => (by cases h)) (Or.inl (isDirectory_iff.mp hroot))
        | ok _ => exact outcome_created htree hfresh hmade.entries (fun h => (by cases h)) (Or.inl (isDirectory_iff.mp hroot))
      · intro hlegacy
        have hlegacy : hasLegacy paths before = false := (Bool.not_eq_true _).mp hlegacy
        rw [Eff.wp_bind]
        refine Eff.wp_mono wp_ensureCreated ?_
        intro r w' hmade
        cases r with
        | error e => exact outcome_created htree hfresh hmade.entries (fun h => (by cases h)) (Or.inr hlegacy)
        | ok _ => exact outcome_created htree hfresh hmade.entries (fun h => (by cases h)) (Or.inr hlegacy)
      · intro hlegacy
        have hlegacy : hasLegacy paths before = true := not_not.mp hlegacy
        have hroot : before paths.root ≠ some .directory := fun h => hroot (isDirectory_iff.mpr h)
        have hapart := apart_of_legacy htree hfresh hlegacy
        rw [Eff.wp_bind]
        refine Eff.wp_mono (wp_createStaging htree hfresh rfl) ?_
        intro r w' ⟨hcalls, haround, hok, herror⟩
        cases r with
        | error e => exact outcome_undone htree hfresh hapart hroot haround (Or.inl (herror e rfl))
        | ok u =>
          refine Eff.wp_mono (wp_import hapart hcalls (hok u rfl)) ?_
          intro r w'' hr
          rcases hr with ⟨e, rfl, haround, hgone⟩ | ⟨rfl, hmoved⟩
          · exact outcome_undone htree hfresh hapart hroot haround hgone
          · exact outcome_moved htree hfresh hapart hroot hlegacy hmoved
    · intro e _
      by_cases hroot : before paths.root = some .directory
      · exact outcome_created htree hfresh (.refl _ _) (fun h => (by cases h)) (Or.inl hroot)
      · exact
          { kept := fun _ _ => rfl
            existing := fun h => absurd h hroot
            folder := fun _ => Or.inl hroot
            imported := ⟨fun h => (by cases h), fun h => absurd h.2.2.root hroot⟩
            staging := Or.inl fun q hq => htree.absent_below hfresh hq }
  exact hend

/-- A user with settings from before, and no inventory. -/
def oldUser : AppPaths := ⟨[str "app"], [str "MythLab"]⟩

example : AppPaths.create (str "MythLab") [str "app"] [] = .ok oldUser := rfl

def oldSettings : Files := fun q =>
  if q = [] ∨ q = [str "app"] ∨ q = [str "MythLab"] then some .directory
  else if q = [str "MythLab", settingsName] then some (.file [123, 125])
  else none

theorem oldSettings_isTree : IsTree oldSettings := by
  intro p n h
  match p with
  | [] => rfl
  | [name] =>
    by_cases hname : name = str "MythLab"
    · rw [hname]
      rfl
    · refine absurd ?_ h
      simp [oldSettings, hname]
  | first :: second :: more =>
    refine absurd ?_ h
    simp [oldSettings]

theorem old_settings_imported :
    Complete ⟨fun bytes _ => .ok bytes⟩ oldUser oldSettings
      (prepareAsync ⟨fun bytes _ => .ok bytes⟩ ⟨[], [], fun _ => true⟩ (fun _ => .none) oldUser (str "1") ⟨oldSettings, []⟩).2.state :=
  ((import_all_or_nothing ⟨fun bytes _ => .ok bytes⟩ ⟨[], [], fun _ => true⟩ (fun _ => .none) oldUser (str "1")
    oldSettings oldSettings_isTree rfl).imported.mp rfl).2.2

end PortableDataSetup

end MythLab.Storage
