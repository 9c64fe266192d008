/-
  MythLab.Connections.WindowsExecutableLocator — finding the program of a connection, and
  starting it.

  `locate` reads the profile's path, or for a remote desktop the system's own program, or
  else looks for an installed one in the folders of Windows, in their order. What it answers is found
  exactly where `Finds` says (`locate_finds_iff`). `launch` is what the launcher does with a
  request: it validates it again, looks whether the file is still there, and starts it.

  Under `ExternalConnectionService` the file system is what Windows says it is, once at the
  locating and once at the launch, and it may change in between. Proved (`windows_starts_iff`):
  what a launch starts is at most one process, and exactly what `Starts` says: a page in
  the browser, or the program that was found, if it is still there, with the arguments
  that were built for it.
-/
import MythLab.Connections.ExternalConnectionService

namespace MythLab.Connections.WindowsExecutableLocator

open Lib Dotnet Devices ExternalConnections
open ExternalConnectionService (LauncherAvailability)

/-- What Windows says at one time. -/
structure Windows where
  systemDirectory : Str
  /-- Program files, 32-bit program files, the local application data. -/
  folders : List Str
  /-- What it throws as an `io` is an `IOException`, a `NotSupportedException` or an
      `UnauthorizedAccessException`. -/
  fullPath : Str → Except Exn Str
  fileExists : Str → Bool

/-- `Path.Combine` with a name that is not rooted. -/
def combine (first second : Str) : Str :=
  if first = [] then second
  else if first.getLast?.any isSeparator then first ++ second
  else first ++ chr '\\' :: second

def label : ConnectionKind → String
  | .ssh => "Ssh"
  | .realVnc => "VNC"
  | .moonlight => "Moonlight"
  | .web => "Web"
  | .localPowerShell => "Terminal"
  | .custom => "Custom"
  | .rdp => "RDP"
  | .undefined value => toString value

/-- Where a program of the kind is installed, below one of the folders. -/
def programs : ConnectionKind → List (List String)
  | .realVnc => [["RealVNC", "VNC Viewer", "vncviewer.exe"], ["Programs", "RealVNC", "VNC Viewer", "vncviewer.exe"]]
  | .moonlight => [["Moonlight Game Streaming", "Moonlight.exe"], ["Moonlight", "Moonlight.exe"],
      ["Programs", "Moonlight Game Streaming", "Moonlight.exe"]]
  | _ => []

def below (root : Str) (names : List String) : Str := names.foldl (fun path name => combine path (str name)) root

section Locator

variable (fw : Framework) (w : Windows)

def candidates (kind : ConnectionKind) : List Str :=
  if kind = .localPowerShell then [below w.systemDirectory ["WindowsPowerShell", "v1.0", "powershell.exe"]]
  else (w.folders.filter (· ≠ [])).eraseDups.flatMap fun root => (programs kind).map (below root)

def firstInstalled (kind : ConnectionKind) : List Str → Except Exn LauncherAvailability
  | [] => pure
    { available := false, path := []
      detail := label kind ++ " is not installed or detected. Edit this connection and choose an executable." }
  | path :: rest => do
    validateExecutablePath fw path
    if w.fileExists path then pure { available := true, path := path, detail := "Installed executable detected" }
    else firstInstalled kind rest

/-- The path that is looked up: of a remote desktop the system's program, whatever the profile says. -/
def configured (p : ConnectionProfile) : Str :=
  if p.kind = .rdp then combine w.systemDirectory (str "mstsc.exe") else p.executablePath

def locateConfigured (path : Str) : Except Exn LauncherAvailability := do
  validateExecutablePath fw path
  let full ← w.fullPath path
  validateExecutablePath fw full
  pure (if w.fileExists full then { available := true, path := full, detail := "Configured executable available" }
    else
      { available := false, path := full
        detail := "The configured executable is missing. Edit this connection to choose its new location." })

/-- `if (!string.IsNullOrEmpty(path)) ValidateExecutablePath(path);` -/
def validateGiven (path : Str) : Except Exn Unit := if path ≠ [] then validateExecutablePath fw path else pure ()

/-- What `Locate` tries. -/
def tryLocate (p : ConnectionProfile) : Except Exn LauncherAvailability := do
  validateGiven fw p.executablePath
  if ¬ isNullOrWhiteSpace (configured w p) then locateConfigured fw w (configured w p)
  else firstInstalled fw w p.kind (candidates w p.kind)

/-- `ex is ArgumentException or IOException or NotSupportedException or UnauthorizedAccessException` -/
def isCaught : Exn → Bool
  | .argument _ | .io _ => true
  | _ => false

def locate (p : ConnectionProfile) : Except Exn LauncherAvailability :=
  match tryLocate fw w p with
  | .ok answer => .ok answer
  | .error e =>
    if isCaught e then .ok
      { available := false, path := []
        detail := "The executable path cannot be used. Edit this connection and choose a valid .exe path." }
    else .error e

end Locator

/-! ## What is found -/

/-- The program found for a profile. -/
inductive Finds (fw : Framework) (w : Windows) (p : ConnectionProfile) (path : Str) : Prop
  /-- The configured one. -/
  | configured : (p.executablePath ≠ [] → validateExecutablePath fw p.executablePath = .ok ()) → configured w p ≠ [] →
      validateExecutablePath fw (configured w p) = .ok () → w.fullPath (WindowsExecutableLocator.configured w p) = .ok path →
      validateExecutablePath fw path = .ok () → w.fileExists path = true → Finds fw w p path
  /-- The first that is installed. -/
  | installed (before after : List Str) : configured w p = [] → candidates w p.kind = before ++ path :: after →
      (∀ earlier ∈ before, validateExecutablePath fw earlier = .ok () ∧ w.fileExists earlier = false) →
      validateExecutablePath fw path = .ok () → w.fileExists path = true → Finds fw w p path

section Found

variable {fw : Framework} {w : Windows} {p : ConnectionProfile} {path : Str}

theorem firstInstalled_finds_iff {kind : ConnectionKind} {paths : List Str} :
    (∃ answer, firstInstalled fw w kind paths = .ok answer ∧ answer.available = true ∧ answer.path = path) ↔
      ∃ before after, paths = before ++ path :: after ∧
        (∀ earlier ∈ before, validateExecutablePath fw earlier = .ok () ∧ w.fileExists earlier = false) ∧
        validateExecutablePath fw path = .ok () ∧ w.fileExists path = true := by
  induction paths with
  | nil =>
    constructor
    · intro ⟨answer, hanswer, havailable, _⟩
      cases hanswer
      cases havailable
    · intro ⟨before, after, hpaths, _⟩
      simp at hpaths
  | cons first rest ih =>
    constructor
    · intro ⟨answer, hanswer, havailable, hpath⟩
      obtain ⟨⟨⟩, hvalid, hanswer⟩ := bind_ok_iff.mp hanswer
      by_cases hexists : w.fileExists first = true
      · rw [if_pos hexists] at hanswer
        cases hanswer
        exact ⟨[], rest, by rw [← hpath]; rfl, nofun, hpath ▸ hvalid, hpath ▸ hexists⟩
      · rw [if_neg hexists] at hanswer
        obtain ⟨before, after, hpaths, hearlier, hfound⟩ := ih.mp ⟨answer, hanswer, havailable, hpath⟩
        refine ⟨first :: before, after, by rw [hpaths]; rfl, ?_, hfound⟩
        rw [List.forall_mem_cons]
        exact ⟨⟨hvalid, (Bool.not_eq_true _).mp hexists⟩, hearlier⟩
    · intro ⟨before, after, hpaths, hearlier, hvalid, hexists⟩
      rcases before with _ | ⟨earlier, before⟩
      · obtain ⟨rfl, -⟩ := List.cons.inj hpaths
        refine ⟨{ available := true, path := first, detail := "Installed executable detected" },
          bind_ok_iff.mpr ⟨(), hvalid, ?_⟩, rfl, rfl⟩
        rw [if_pos hexists]
        rfl
      · obtain ⟨rfl, hrest⟩ := List.cons.inj hpaths
        rw [List.forall_mem_cons] at hearlier
        obtain ⟨answer, hanswer, hfound⟩ := ih.mpr ⟨before, after, hrest, hearlier.2, hvalid, hexists⟩
        refine ⟨answer, bind_ok_iff.mpr ⟨(), hearlier.1.1, ?_⟩, hfound⟩
        rw [if_neg (by rw [hearlier.1.2]; exact Bool.false_ne_true)]
        exact hanswer

theorem locateConfigured_finds_iff {written : Str} :
    (∃ answer, locateConfigured fw w written = .ok answer ∧ answer.available = true ∧ answer.path = path) ↔
      validateExecutablePath fw written = .ok () ∧ w.fullPath written = .ok path ∧
        validateExecutablePath fw path = .ok () ∧ w.fileExists path = true := by
  constructor
  · intro ⟨answer, hanswer, havailable, hpath⟩
    obtain ⟨⟨⟩, hvalid, hanswer⟩ := bind_ok_iff.mp hanswer
    obtain ⟨full, hfull, hanswer⟩ := bind_ok_iff.mp hanswer
    obtain ⟨⟨⟩, hvalid', hanswer⟩ := bind_ok_iff.mp hanswer
    cases hexists : w.fileExists full
    · rw [hexists] at hanswer
      cases hanswer
      cases havailable
    · rw [hexists] at hanswer
      cases hanswer
      cases hpath
      exact ⟨hvalid, hfull, hvalid', hexists⟩
  · intro ⟨hvalid, hfull, hvalid', hexists⟩
    refine ⟨_, bind_ok_iff.mpr ⟨(), hvalid, bind_ok_iff.mpr ⟨path, hfull, bind_ok_iff.mpr ⟨(), hvalid', rfl⟩⟩⟩, ?_, ?_⟩
    · rw [if_pos hexists]
    · rw [if_pos hexists]

/-- A path that passed has a separator in it. -/
theorem not_blank_of_valid (h : validateExecutablePath fw path = .ok ()) : isNullOrWhiteSpace path = false := by
  unfold validateExecutablePath at h
  simp only [throwIf_bind_ok_iff, throwIf_ok_iff] at h
  obtain ⟨-, -, hsep⟩ := h
  rw [← Bool.not_eq_true, isNullOrWhiteSpace, List.all_eq_true]
  intro hblank
  refine hsep ⟨?_, ?_⟩
  · intro hin
    have hspace := hblank _ (List.contains_iff_mem.mp hin)
    exact absurd hspace (by decide)
  · intro hin
    have hspace := hblank _ (List.contains_iff_mem.mp hin)
    exact absurd hspace (by decide)

theorem validateGiven_ok_iff : validateGiven fw path = .ok () ↔ (path ≠ [] → validateExecutablePath fw path = .ok ()) := by
  unfold validateGiven
  by_cases h : path = []
  · rw [if_neg (not_not_intro h)]
    exact ⟨fun _ hne => absurd h hne, fun _ => rfl⟩
  · rw [if_pos h]
    exact ⟨fun hvalid _ => hvalid, fun hvalid => hvalid h⟩

theorem mstsc_not_blank (root : Str) : isNullOrWhiteSpace (combine root (str "mstsc.exe")) = false := by
  have hword : chr 'e' ∈ str "mstsc.exe" := by decide
  have hlast : chr 'e' ∈ combine root (str "mstsc.exe") := by
    unfold combine
    split
    · exact hword
    · split
      · exact List.mem_append_right _ hword
      · exact List.mem_append_right _ (List.mem_cons_of_mem _ hword)
  rw [← Bool.not_eq_true]
  intro hblank
  exact absurd (List.all_eq_true.mp hblank _ hlast) (by decide)

/-- A path that is blank is empty, or it was refused. -/
theorem configured_of_blank (hvalid : p.executablePath ≠ [] → validateExecutablePath fw p.executablePath = .ok ())
    (hblank : isNullOrWhiteSpace (configured w p) = true) : configured w p = [] := by
  unfold configured at *
  by_cases hk : p.kind = .rdp
  · rw [if_pos hk, mstsc_not_blank] at hblank
    cases hblank
  · rw [if_neg hk] at hblank ⊢
    by_contra hne
    rw [not_blank_of_valid (hvalid hne)] at hblank
    cases hblank

theorem executablePath_of_configured (h : configured w p = []) : p.executablePath = [] := by
  unfold configured at h
  split at h
  · have hblank := mstsc_not_blank w.systemDirectory
    rw [h] at hblank
    cases hblank
  · exact h

theorem tryLocate_finds_iff : (∃ answer, tryLocate fw w p = .ok answer ∧ answer.available = true ∧ answer.path = path) ↔
    Finds fw w p path := by
  constructor
  · intro ⟨answer, hanswer, havailable, hpath⟩
    obtain ⟨⟨⟩, hvalid, hanswer⟩ := bind_ok_iff.mp hanswer
    rw [validateGiven_ok_iff] at hvalid
    by_cases hblank : isNullOrWhiteSpace (configured w p) = true
    · have hempty := configured_of_blank hvalid hblank
      rw [if_neg (not_not_intro hblank)] at hanswer
      obtain ⟨before, after, hpaths, hearlier, hpathValid, hexists⟩ :=
        firstInstalled_finds_iff.mp ⟨answer, hanswer, havailable, hpath⟩
      exact .installed before after hempty hpaths hearlier hpathValid hexists
    · rw [if_pos hblank] at hanswer
      obtain ⟨hwritten, hfull, hpathValid, hexists⟩ := locateConfigured_finds_iff.mp ⟨answer, hanswer, havailable, hpath⟩
      refine .configured hvalid ?_ hwritten hfull hpathValid hexists
      intro hempty
      rw [hempty] at hblank
      exact hblank rfl
  · intro h
    cases h with
    | configured hvalid hne hwritten hfull hpathValid hexists =>
      obtain ⟨answer, hanswer, hfound⟩ := locateConfigured_finds_iff.mpr ⟨hwritten, hfull, hpathValid, hexists⟩
      refine ⟨answer, bind_ok_iff.mpr ⟨(), validateGiven_ok_iff.mpr hvalid, ?_⟩, hfound⟩
      rw [if_pos (by rw [not_blank_of_valid hwritten]; exact Bool.false_ne_true)]
      exact hanswer
    | installed before after hempty hpaths hearlier hpathValid hexists =>
      obtain ⟨answer, hanswer, hfound⟩ := firstInstalled_finds_iff.mpr ⟨before, after, hpaths, hearlier, hpathValid, hexists⟩
      have hvalid : validateGiven fw p.executablePath = .ok () :=
        validateGiven_ok_iff.mpr fun hne => absurd (executablePath_of_configured hempty) hne
      refine ⟨answer, bind_ok_iff.mpr ⟨(), hvalid, ?_⟩, hfound⟩
      rw [if_neg (by rw [hempty]; exact not_not_intro rfl)]
      exact hanswer

theorem locate_finds_iff : (∃ answer, locate fw w p = .ok answer ∧ answer.available = true ∧ answer.path = path) ↔
    Finds fw w p path := by
  rw [← tryLocate_finds_iff]
  unfold locate
  constructor
  · intro ⟨answer, hanswer, havailable, hpath⟩
    cases htry : tryLocate fw w p with
    | ok found =>
      rw [htry] at hanswer
      exact ⟨answer, hanswer, havailable, hpath⟩
    | error e =>
      rw [htry] at hanswer
      dsimp only at hanswer
      split at hanswer
      · cases hanswer
        cases havailable
      · cases hanswer
  · intro ⟨answer, hanswer, hfound⟩
    exact ⟨answer, by rw [hanswer], hfound⟩

end Found

end MythLab.Connections.WindowsExecutableLocator

/-! ## The launch, exactly -/

namespace MythLab.Connections.ExternalConnectionService

open Lib Dotnet Devices ExternalConnections

variable {fw : Framework} {env : Environment} {profile : ConnectionProfile} {device : Device} {actions : List Action}
  {request : LaunchRequest}

/-- What the locator answers of the program; a browser is not located. -/
def Answered (env : Environment) (profile : ConnectionProfile) (answer : LauncherAvailability) : Prop :=
  if profile.kind = .web then answer = { available := true, path := [], detail := "Default web browser" }
  else env.locate profile = .ok answer

/-- Everything a launch needs for the request to be handed over. -/
structure HandsOver (fw : Framework) (env : Environment) (profile : ConnectionProfile) (device : Device)
    (request : LaunchRequest) : Prop where
  valid : validate fw profile = .ok ()
  uncancelled : ∀ place, env.cancelled place = false
  built : ∃ answer, Answered env profile answer ∧ answer.available = true ∧ build fw profile device answer.path = .ok request
  ready : Ready env profile device

theorem Answered.unique {answer other : LauncherAvailability} (h : Answered env profile answer)
    (h' : Answered env profile other) : answer = other := by
  unfold Answered at h h'
  split at h
  · rename_i hk
    rw [if_pos hk] at h'
    exact h.trans h'.symm
  · rename_i hk
    rw [if_neg hk] at h'
    exact Except.ok.inj (h.symm.trans h')

theorem HandsOver.unique {other : LaunchRequest} (h : HandsOver fw env profile device request)
    (h' : HandsOver fw env profile device other) : request = other := by
  obtain ⟨answer, hanswer, -, hbuild⟩ := h.built
  obtain ⟨answer', hanswer', -, hbuild'⟩ := h'.built
  rw [hanswer'.unique hanswer] at hbuild'
  exact Except.ok.inj (hbuild.symm.trans hbuild')

theorem availability_answered : Eff.wp (availability env profile)
    (fun r actions' => launches actions' = launches actions ∧ ∀ answer, r = .ok answer ↔ Answered env profile answer) actions := by
  unfold availability Answered
  refine Eff.wp_ite ?_ ?_
  · intro hweb
    simp only [if_pos hweb]
    exact ⟨rfl, fun answer => ⟨fun h => (Except.ok.inj h).symm, fun h => congrArg Except.ok h.symm⟩⟩
  · intro hweb
    simp only [if_neg hweb]
    rw [act_wp]
    exact ⟨by simp [Action.launched?], fun _ => Iff.rfl⟩

theorem checkReadiness_ready : Eff.wp (checkReadiness env profile device)
    (fun r actions' => launches actions' = launches actions ∧ (r = .ok () ↔ Ready env profile device)) actions := by
  unfold checkReadiness Ready
  cases profile.readinessPort with
  | none => exact ⟨rfl, ⟨fun _ _ h => (by cases h), fun _ => rfl⟩⟩
  | some port =>
    dsimp only
    rw [Eff.wp_bind, act_wp]
    have hquiet : launches (actions ++ [.check (readinessDevice device port) (profile.timeoutSeconds * 1000)]) =
        launches actions := by simp [Action.launched?]
    cases hanswer : env.checkAsync (readinessDevice device port) (profile.timeoutSeconds * 1000) with
    | error e =>
      refine ⟨hquiet, ⟨fun hu => (by cases hu), fun hready => ?_⟩⟩
      obtain ⟨answer, h, -⟩ := hready port rfl
      cases hanswer.symm.trans h
    | ok answer =>
      refine ⟨hquiet, ⟨fun hu => ?_, fun hready => ?_⟩⟩
      · intro _ hport
        cases hport
        exact ⟨answer, hanswer, not_not.mp (throwIf_ok_iff.mp hu)⟩
      · obtain ⟨other, h, honline⟩ := hready port rfl
        cases hanswer.symm.trans h
        exact throwIf_ok_iff.mpr (not_not_intro honline)

/-- Nothing was handed over, and there was nothing to hand over. -/
theorem none_of_not (hquiet : launches actions = []) (h : ∀ request, ¬ HandsOver fw env profile device request) :
    (launches actions = [] ∧ ∀ request, ¬ HandsOver fw env profile device request) ∨
      ∃ request, launches actions = [request] ∧ HandsOver fw env profile device request := Or.inl ⟨hquiet, h⟩

theorem HandsOver.passes (h : HandsOver fw env profile device request) (place : Place) :
    throwIfCancellationRequested env place = .ok () := by
  refine throwIf_ok_iff.mpr ?_
  rw [h.uncancelled place]
  exact Bool.false_ne_true

/-- A launch hands over the request that has everything, or there is none and it hands over nothing. -/
theorem launchAsync_exact (h : launches actions = []) : Eff.wp (launchAsync fw env profile device)
    (fun _ actions' => (launches actions' = [] ∧ ∀ request, ¬ HandsOver fw env profile device request) ∨
      ∃ request, launches actions' = [request] ∧ HandsOver fw env profile device request) actions := by
  unfold launchAsync
  refine Eff.wp_lift_step (fun e he => none_of_not h fun _ hands => nomatch he.symm.trans hands.valid) ?_
  intro _ hvalid
  refine Eff.wp_lift_step (fun e he => none_of_not h fun _ hands => nomatch he.symm.trans (hands.passes .start)) ?_
  intro _ _
  refine Eff.wp_lift_step (fun e he => none_of_not h fun _ hands => nomatch he.symm.trans (hands.passes .locating)) ?_
  intro _ _
  rw [Eff.wp_bind]
  refine Eff.wp_mono availability_answered ?_
  intro found actions₁ ⟨hquiet, hanswered⟩
  rw [h] at hquiet
  cases found with
  | error e =>
    refine none_of_not hquiet fun _ hands => ?_
    obtain ⟨answer, hanswer, -⟩ := hands.built
    cases (hanswered answer).mpr hanswer
  | ok found =>
    have hfound := (hanswered found).mp rfl
    have hbuilt {request : LaunchRequest} (hands : HandsOver fw env profile device request) :
        found.available = true ∧ build fw profile device found.path = .ok request := by
      obtain ⟨answer, hanswer, hbuilt⟩ := hands.built
      rwa [hfound.unique hanswer]
    refine Eff.wp_lift_step ?_ ?_
    · intro e he
      refine none_of_not hquiet fun _ hands => ?_
      have hpasses : ¬ found.available = false := by
        rw [(hbuilt hands).1]
        exact Bool.noConfusion
      rw [throwIf, if_neg hpasses] at he
      cases he
    intro _ havailable
    refine Eff.wp_lift_step (fun e he => none_of_not hquiet fun _ hands => nomatch he.symm.trans (hbuilt hands).2) ?_
    intro request hbuild
    rw [Eff.wp_bind]
    refine Eff.wp_mono checkReadiness_ready ?_
    intro ready actions₂ ⟨hsame, hready⟩
    rw [hquiet] at hsame
    cases ready with
    | error e => exact none_of_not hsame fun _ hands => nomatch hready.mpr hands.ready
    | ok ready =>
      refine Eff.wp_lift_step
        (fun e he => none_of_not hsame fun _ hands => nomatch he.symm.trans (hands.passes .handOver)) ?_
      intro _ hcancelled
      rw [act_wp]
      refine Or.inr ⟨request, by simp [hsame, Action.launched?], hvalid, ?_, ⟨found, hfound, ?_, hbuild⟩, hready.mp rfl⟩
      · exact uncancelled_of_handOver ((Bool.not_eq_true _).mp (throwIf_ok_iff.mp hcancelled))
      · exact (Bool.not_eq_false _).mp (throwIf_ok_iff.mp havailable)

theorem mem_launches_iff :
    request ∈ launches (calls fw env profile device) ↔ HandsOver fw env profile device request := by
  have h : (launches (calls fw env profile device) = [] ∧ ∀ request, ¬ HandsOver fw env profile device request) ∨
      ∃ request, launches (calls fw env profile device) = [request] ∧ HandsOver fw env profile device request :=
    launchAsync_exact rfl
  rcases h with ⟨hnone, hnot⟩ | ⟨other, hone, hands⟩
  · rw [hnone]
    exact ⟨fun h => (nomatch h), fun h => absurd h (hnot request)⟩
  · rw [hone, List.mem_singleton]
    exact ⟨fun h => h ▸ hands, fun h => h.unique hands⟩

theorem length_launches_le : (launches (calls fw env profile device)).length ≤ 1 := by
  have h : (launches (calls fw env profile device) = [] ∧ ∀ request, ¬ HandsOver fw env profile device request) ∨
      ∃ request, launches (calls fw env profile device) = [request] ∧ HandsOver fw env profile device request :=
    launchAsync_exact rfl
  rcases h with ⟨hnone, -⟩ | ⟨other, hone, -⟩
  · rw [hnone]
    exact Nat.zero_le _
  · rw [hone]
    exact Nat.le_refl _

end MythLab.Connections.ExternalConnectionService

/-! ## Starting it -/

namespace MythLab.Connections.WindowsConnectionLauncher

open Lib Dotnet Devices ExternalConnections
open ExternalConnectionService (LauncherAvailability Environment Place HandsOver calls launches)
open WindowsExecutableLocator (Windows Finds)

/-- The machine a connection is opened on. -/
structure Desktop where
  /-- While the program is located. -/
  locating : Windows
  /-- `File.Exists`, at the launch. -/
  fileExists : Str → Bool
  /-- `Process.Start`. What it throws as an `io` is an `IOException` or a `Win32Exception`. -/
  start : ProcessStartInfo → Except Exn Unit
  checkAsync : Device → Int → Except Exn StatusObservation
  cancelledBy : Option Place
  /-- The token at the launch. -/
  cancelled : Bool

variable (fw : Framework) (d : Desktop)

/-- `ex is Win32Exception or IOException or InvalidOperationException` -/
def isStartFailure : Exn → Bool
  | .io _ | .invalidOperation _ => true
  | _ => false

/-- What `LaunchAsync` started, and how it ended. -/
def launchAsync (request : LaunchRequest) : Eff (List ProcessStartInfo) Exn Unit := do
  Eff.lift (throwIf (d.cancelled = true) .operationCanceled)
  let start ← Eff.lift (createStartInfo fw request)
  Eff.lift (throwIf (request.webUri = none ∧ d.fileExists request.executable = false)
    (.invalidOperation "The configured executable is missing. Edit this connection and choose its new location."))
  tryCatch (do Eff.modify (· ++ [start]); Eff.lift (d.start start)) fun e =>
    if isStartFailure e then throw (.invalidOperation
      "Windows could not start this connection. Check installation, executable permissions or the default browser.")
    else throw e

/-- The service with the locator and the launcher of Windows. -/
def environment : Environment where
  locate := WindowsExecutableLocator.locate fw d.locating
  checkAsync := d.checkAsync
  launchAsync request := (launchAsync fw d request []).1
  cancelledBy := d.cancelledBy

/-- What a launch starts. -/
def started (profile : ConnectionProfile) (device : Device) : List ProcessStartInfo :=
  (launches (calls fw (environment fw d) profile device)).flatMap fun request => (launchAsync fw d request []).2

/-- What a launch of a valid profile starts, where no token is cancelled and the device is ready. -/
inductive Starts (fw : Framework) (d : Desktop) (profile : ConnectionProfile) (device : Device) : ProcessStartInfo → Prop
  | page {request : LaunchRequest} {uri : Uri} : profile.kind = .web → build fw profile device [] = .ok request →
      request.webUri = some uri →
      Starts fw d profile device { fileName := uri.text, argumentList := [], useShellExecute := true }
  | program {path : Str} {request : LaunchRequest} : profile.kind ≠ .web → Finds fw d.locating profile path →
      build fw profile device path = .ok request → d.fileExists path = true →
      Starts fw d profile device { fileName := path, argumentList := request.arguments, useShellExecute := false }

variable {fw d} {profile : ConnectionProfile} {device : Device} {request : LaunchRequest} {info : ProcessStartInfo}

theorem throwIf_error {c : Prop} [Decidable c] {e e' : Exn} (h : throwIf c e = .error e') : c := by
  by_contra hc
  rw [throwIf, if_neg hc] at h
  cases h

/-- The launcher starts what was built, unless it is cancelled or the file is gone. -/
theorem launchAsync_starts : (launchAsync fw d request).wp (fun _ starts => starts =
    if d.cancelled = false ∧ ¬ (request.webUri = none ∧ d.fileExists request.executable = false) then
      (createStartInfo fw request).toOption.toList
    else []) [] := by
  refine Eff.wp_lift_step ?_ ?_
  · intro e he
    rw [if_neg]
    intro h
    rw [throwIf_error he] at h
    cases h.1
  intro _ hcancelled
  have hgoes : d.cancelled = false := (Bool.not_eq_true _).mp (throwIf_ok_iff.mp hcancelled)
  refine Eff.wp_lift_step ?_ ?_
  · intro e he
    rw [he]
    split <;> rfl
  intro start hstart
  refine Eff.wp_lift_step ?_ ?_
  · intro e he
    rw [if_neg fun h => h.2 (throwIf_error he)]
  intro _ hexists
  rw [if_pos ⟨hgoes, throwIf_ok_iff.mp hexists⟩, hstart, Eff.wp_tryCatch, Eff.wp_modify_bind, Eff.wp_lift]
  cases d.start start with
  | ok u => rfl
  | error e => exact Eff.wp_ite (fun _ => rfl) fun _ => rfl

/-- The profile is valid, the device ready and no token cancelled. -/
structure Clear (fw : Framework) (d : Desktop) (profile : ConnectionProfile) (device : Device) : Prop where
  valid : validate fw profile = .ok ()
  uncancelled : ∀ place, (environment fw d).cancelled place = false
  ready : ExternalConnectionService.Ready (environment fw d) profile device
  launching : d.cancelled = false

theorem mem_started_iff : info ∈ started fw d profile device ↔ d.cancelled = false ∧
    ∃ request, HandsOver fw (environment fw d) profile device request ∧
      ¬ (request.webUri = none ∧ d.fileExists request.executable = false) ∧ createStartInfo fw request = .ok info := by
  unfold started
  simp only [List.mem_flatMap, ExternalConnectionService.mem_launches_iff]
  constructor
  · intro ⟨request, hands, hinfo⟩
    have hstarts : (launchAsync fw d request []).2 = _ := launchAsync_starts
    rw [hstarts] at hinfo
    split at hinfo
    · rename_i h
      refine ⟨h.1, request, hands, h.2, ?_⟩
      cases hcreate : createStartInfo fw request with
      | error e =>
        rw [hcreate] at hinfo
        cases hinfo
      | ok start =>
        rw [hcreate] at hinfo
        rw [List.mem_singleton.mp hinfo]
    · cases hinfo
  · intro ⟨hgoes, request, hands, hexists, hcreate⟩
    refine ⟨request, hands, ?_⟩
    have hstarts : (launchAsync fw d request []).2 = _ := launchAsync_starts
    rw [hstarts, if_pos ⟨hgoes, hexists⟩, hcreate]
    exact List.mem_singleton_self _

/-- What is handed over, as the locator and the checks of Windows decide it. -/
theorem handsOver_page_iff (hk : profile.kind = .web) : HandsOver fw (environment fw d) profile device request ↔
    validate fw profile = .ok () ∧ (∀ place, (environment fw d).cancelled place = false) ∧
      ExternalConnectionService.Ready (environment fw d) profile device ∧ build fw profile device [] = .ok request := by
  constructor
  · intro h
    obtain ⟨answer, hanswer, -, hbuild⟩ := h.built
    rw [ExternalConnectionService.Answered, if_pos hk] at hanswer
    rw [hanswer] at hbuild
    exact ⟨h.valid, h.uncancelled, h.ready, hbuild⟩
  · intro ⟨hvalid, huncancelled, hready, hbuild⟩
    refine ⟨hvalid, huncancelled, ⟨{ available := true, path := [], detail := "Default web browser" }, ?_, rfl, hbuild⟩, hready⟩
    rw [ExternalConnectionService.Answered, if_pos hk]

theorem handsOver_program_iff (hk : profile.kind ≠ .web) : HandsOver fw (environment fw d) profile device request ↔
    validate fw profile = .ok () ∧ (∀ place, (environment fw d).cancelled place = false) ∧
      ExternalConnectionService.Ready (environment fw d) profile device ∧
      ∃ path, Finds fw d.locating profile path ∧ build fw profile device path = .ok request := by
  constructor
  · intro h
    obtain ⟨answer, hanswer, havailable, hbuild⟩ := h.built
    rw [ExternalConnectionService.Answered, if_neg hk] at hanswer
    have hfinds : Finds fw d.locating profile answer.path :=
      WindowsExecutableLocator.locate_finds_iff.mp ⟨answer, hanswer, havailable, rfl⟩
    exact ⟨h.valid, h.uncancelled, h.ready, answer.path, hfinds, hbuild⟩
  · intro ⟨hvalid, huncancelled, hready, path, hfinds, hbuild⟩
    obtain ⟨answer, hanswer, havailable, rfl⟩ := WindowsExecutableLocator.locate_finds_iff.mpr hfinds
    refine ⟨hvalid, huncancelled, ⟨answer, ?_, havailable, hbuild⟩, hready⟩
    rw [ExternalConnectionService.Answered, if_neg hk]
    exact hanswer

/-- A request that was built for a program is started as it is. -/
theorem program_of_build {path : Str} (hk : profile.kind ≠ .web) (hbuild : build fw profile device path = .ok request) :
    request = { executable := path, arguments := request.arguments, webUri := none } ∧
      createStartInfo fw request = .ok { fileName := path, argumentList := request.arguments, useShellExecute := false } := by
  have hsafe := build_safe hbuild
  unfold SafeRequest at hsafe
  rw [if_neg hk] at hsafe
  have hpath := (build_executable hbuild hk).1
  have hcreate := createStartInfo_build hbuild
  rw [hsafe.noAddress, hpath] at hcreate
  obtain ⟨executable, arguments, webUri⟩ := request
  cases hpath
  cases hsafe.noAddress
  exact ⟨rfl, hcreate⟩

theorem page_of_build (hk : profile.kind = .web) (hbuild : build fw profile device [] = .ok request) :
    ∃ uri, request.webUri = some uri ∧
      createStartInfo fw request = .ok { fileName := uri.text, argumentList := [], useShellExecute := true } := by
  have hsafe := build_safe hbuild
  unfold SafeRequest at hsafe
  rw [if_pos hk] at hsafe
  obtain ⟨uri, huri, -⟩ := hsafe.address
  have hcreate := createStartInfo_build hbuild
  rw [huri] at hcreate
  exact ⟨uri, huri, hcreate⟩

theorem started_iff : info ∈ started fw d profile device ↔ Clear fw d profile device ∧ Starts fw d profile device info := by
  rw [mem_started_iff]
  constructor
  · intro ⟨hgoes, request, hands, hexists, hcreate⟩
    refine ⟨⟨hands.valid, hands.uncancelled, hands.ready, hgoes⟩, ?_⟩
    by_cases hk : profile.kind = .web
    · obtain ⟨-, -, -, hbuild⟩ := (handsOver_page_iff hk).mp hands
      obtain ⟨uri, huri, hpage⟩ := page_of_build hk hbuild
      cases hpage.symm.trans hcreate
      exact .page hk hbuild huri
    · obtain ⟨-, -, -, path, hfinds, hbuild⟩ := (handsOver_program_iff hk).mp hands
      obtain ⟨hrequest, hprogram⟩ := program_of_build hk hbuild
      cases hprogram.symm.trans hcreate
      refine .program hk hfinds hbuild ?_
      rw [hrequest] at hexists
      exact (Bool.not_eq_false _).mp fun h => hexists ⟨rfl, h⟩
  · intro ⟨hclear, hstarts⟩
    refine ⟨hclear.launching, ?_⟩
    cases hstarts with
    | @page request uri hk hbuild huri =>
      refine ⟨request, (handsOver_page_iff hk).mpr ⟨hclear.valid, hclear.uncancelled, hclear.ready, hbuild⟩, ?_, ?_⟩
      · intro h
        cases huri.symm.trans h.1
      · obtain ⟨other, hother, hpage⟩ := page_of_build hk hbuild
        cases huri.symm.trans hother
        exact hpage
    | @program path request hk hfinds hbuild hexists =>
      obtain ⟨hrequest, hprogram⟩ := program_of_build hk hbuild
      refine ⟨request, (handsOver_program_iff hk).mpr
        ⟨hclear.valid, hclear.uncancelled, hclear.ready, path, hfinds, hbuild⟩, ?_, hprogram⟩
      rw [hrequest, hexists]
      exact fun h => Bool.noConfusion h.2

theorem length_started_le : (started fw d profile device).length ≤ 1 := by
  have hone : ∀ request, (launchAsync fw d request []).2.length ≤ 1 := by
    intro request
    have hstarts : (launchAsync fw d request []).2 = _ := launchAsync_starts
    rw [hstarts]
    split
    · cases createStartInfo fw request <;> exact Nat.le_of_ble_eq_true rfl
    · exact Nat.zero_le _
  have hrequests := @ExternalConnectionService.length_launches_le fw (environment fw d) profile device
  unfold started
  rcases hlaunches : launches (calls fw (environment fw d) profile device) with _ | ⟨request, _ | ⟨other, rest⟩⟩
  · exact Nat.zero_le _
  · rw [List.flatMap_cons, List.flatMap_nil, List.append_nil]
    exact hone request
  · rw [hlaunches] at hrequests
    simp at hrequests

/-- The viewer is installed for the user only. -/
def viewerDesktop : Desktop where
  locating :=
    { systemDirectory := str "C:\\Windows\\system32"
      folders := [str "C:\\Program Files", [], str "C:\\Users\\me\\AppData\\Local"]
      fullPath := .ok
      fileExists := (· == str "C:\\Users\\me\\AppData\\Local\\Programs\\RealVNC\\VNC Viewer\\vncviewer.exe") }
  fileExists _ := true
  start _ := .ok ()
  checkAsync _ _ := .ok { state := .online, checkedAt := ⟨0, 0⟩ }
  cancelledBy := none
  cancelled := false

example : started Framework.ascii viewerDesktop { id := 1, deviceId := 2, displayName := str "Screen", kind := .realVnc }
      { id := 2, displayName := str "NAS", hostname := str "nas" } =
    [{ fileName := str "C:\\Users\\me\\AppData\\Local\\Programs\\RealVNC\\VNC Viewer\\vncviewer.exe"
       argumentList := [str "nas::5900"]
       useShellExecute := false }] := by
  decide +kernel

end MythLab.Connections.WindowsConnectionLauncher
