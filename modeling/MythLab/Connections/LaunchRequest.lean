/-
  MythLab.Connections.LaunchRequest — what is handed to the system to open a connection:
  an address for the browser, or a program and its arguments.

  Proved (`build_safe`): a request that `build` returns is `SafeRequest`. An address is
  HTTP or HTTPS and names no user. A program is an `.exe` on a local path and no shell,
  or, for the local terminal, one of three with at most `-NoLogo`; its arguments are those
  its kind starts with and one for each template of the profile, filled with plain text.
  The launcher hands such a request on as it is (`createStartInfo_build`).
-/
import MythLab.Connections.Templates

namespace MythLab.Connections

open Lib Dotnet Devices

/-- A request contains only non-secret metadata. -/
structure LaunchRequest where
  executable : Str
  arguments : List Str
  webUri : Option Uri := none
  deriving DecidableEq, Repr

namespace ExternalConnections

variable (fw : Framework)

/-! ## Building a request -/

def networkHost (device : Device) : Except Exn Str := networkIdentity device.endpoint false

/-- The arguments of the kind itself; `name` is the file name of the executable. -/
def builtinArguments (p : ConnectionProfile) (device : Device) (name : Str) : Except Exn (List Str) :=
  match p.kind with
  | .rdp => do
    let host ← networkHost device
    pure ((str "/v:" ++ host ++ str ":" ++ str (toString (p.port.getD 3389))) ::
      if p.rdpFullscreen then [str "/f"] else [str "/w:1280", str "/h:720"])
  | .realVnc => do
    let host ← networkHost device
    pure [host ++ str "::" ++ str (toString (p.port.getD 5900))]
  | .moonlight =>
    if isNullOrWhiteSpace p.remoteApplication then pure []
    else do
      let host ← networkHost device
      pure [str "stream", host, p.remoteApplication]
  | .localPowerShell => pure (if fw.equalsIgnoreCase name (str "wt.exe") then [] else [str "-NoLogo"])
  | _ => pure []

def build (p : ConnectionProfile) (device : Device) (executable : Str) : Except Exn LaunchRequest := do
  validate fw p
  throwIf (p.kind = .ssh) (.argument "SSH uses the integrated terminal.")
  if p.kind = .web then do
    let uri ← webUri fw p device
    pure { executable := [], arguments := [], webUri := some uri }
  else do
    validateExecutablePath fw executable
    validateProgram fw p.kind executable
    let args ← builtinArguments fw p device (fileName executable)
    let expanded ← p.arguments.mapM fun a => expand a device (p.port.or (defaultPort p.kind))
    pure { executable := executable, arguments := args ++ expanded }

/-! ## Safe requests -/

def isSeparator (c : Char16) : Bool := c == chr '\\' || c == chr '/'

/-- A path to this machine: below the root of a drive, or relative with a separator in
    it. A network path, a device path and a path from a root start with a separator; a
    path relative to a drive has a colon and none after it. -/
inductive LocalPath : Str → Prop where
  | driveAbsolute (letter separator : Char16) (rest : Str) : isAsciiLetter letter = true →
      isSeparator separator = true → chr ':' ∉ rest → LocalPath (letter :: chr ':' :: separator :: rest)
  | relative (path : Str) : (∀ c ∈ path.head?, isSeparator c = false) → chr ':' ∉ path →
      (∃ c ∈ path, isSeparator c = true) → LocalPath path

def shells : List String :=
  ["cmd.exe", "powershell.exe", "pwsh.exe", "wt.exe", "wscript.exe", "cscript.exe", "mshta.exe"]

def localTerminals : List String := ["powershell.exe", "pwsh.exe", "wt.exe"]

/-- The executable's file name is one of the names, up to case. -/
def IsOneOf (names : List String) (executable : Str) : Prop :=
  ∃ name ∈ names, fw.equalsIgnoreCase (str name) (fileName executable) = true

/-- The program a profile of this kind may start. -/
def ProgramAllowed (kind : ConnectionKind) (executable : Str) : Prop :=
  if kind = .localPowerShell then IsOneOf fw localTerminals executable else ¬ IsOneOf fw shells executable

/-- The host a device is reached at; blank where it has none. -/
def hostOf (device : Device) : Str :=
  match networkHost device with
  | .ok host => host
  | .error _ => []

/-- The arguments a request of the profile's kind starts with. -/
def fixedArguments (p : ConnectionProfile) (host executable : Str) : List Str :=
  match p.kind with
  | .rdp =>
    [str "/v:" ++ host ++ str ":" ++ str (toString (p.port.getD 3389))] ++
      if p.rdpFullscreen then [str "/f"] else [str "/w:1280", str "/h:720"]
  | .realVnc => [host ++ str "::" ++ str (toString (p.port.getD 5900))]
  | .moonlight =>
    if isNullOrWhiteSpace p.remoteApplication then [] else [str "stream", host, p.remoteApplication]
  | .localPowerShell => if fw.equalsIgnoreCase (fileName executable) (str "wt.exe") then [] else [str "-NoLogo"]
  | _ => []

/-- The port a placeholder stands for. -/
def effectivePort (p : ConnectionProfile) : Option Int := p.port.or (defaultPort p.kind)

structure SafeAddress (request : LaunchRequest) : Prop where
  noProgram : request.executable = [] ∧ request.arguments = []
  address : ∃ uri, request.webUri = some uri ∧ (uri.scheme = str "http" ∨ uri.scheme = str "https") ∧ uri.userInfo = []

structure SafeProgram (p : ConnectionProfile) (device : Device) (request : LaunchRequest) : Prop where
  noAddress : request.webUri = none
  local_ : LocalPath request.executable
  exe : ∃ stem ext, request.executable = stem ++ ext ∧ fw.equalsIgnoreCase ext (str ".exe") = true
  program : ProgramAllowed fw p.kind request.executable
  arguments : request.arguments = fixedArguments fw p (hostOf device) request.executable ++
    p.arguments.map (substitute (valueOf device (effectivePort p)))
  plainHost : ∀ c ∈ hostOf device, isPlain c = true
  plainValues : ∀ q, ∀ c ∈ valueOf device (effectivePort p) q, isPlain c = true
  terminal : p.kind = .localPowerShell → request.arguments = [] ∨ request.arguments = [str "-NoLogo"]

def SafeRequest (p : ConnectionProfile) (device : Device) (request : LaunchRequest) : Prop :=
  if p.kind = .web then SafeAddress request else SafeProgram fw p device request

variable {fw} {p : ConnectionProfile} {device : Device} {executable : Str} {request : LaunchRequest}

/-! ## What the validators establish -/

theorem validate_port (h : validate fw p = .ok ()) : ∀ n ∈ p.port, 1 ≤ n ∧ n ≤ 65535 := by
  obtain ⟨hp, -⟩ := throwIf_bind_ok_iff.mp h
  rintro n hn
  have hout : outOfRange 1 65535 p.port = false := (Bool.not_eq_true _).mp fun hbad => hp (by simp [hbad])
  rw [Option.mem_def.mp hn] at hout
  simp only [outOfRange, Bool.or_eq_false_iff, decide_eq_false_iff_not] at hout
  omega

theorem effectivePort_nonneg (h : validate fw p = .ok ()) : ∀ n ∈ effectivePort p, 0 ≤ n := by
  intro n hn
  unfold effectivePort at hn
  cases hp : p.port with
  | some m =>
    rw [hp] at hn
    cases hn
    have := validate_port h _ hp
    omega
  | none =>
    rw [hp] at hn
    cases hk : p.kind <;> rw [hk] at hn <;> cases hn <;> decide

/-- The arguments each passed their check, and a kind that takes none has none. -/
theorem validateExternal_ok (h : validateExternal fw p = .ok ()) :
    (∀ a ∈ p.arguments, validateArgument fw p a = .ok ()) ∧
      ¬ ((p.kind = .rdp ∨ p.kind = .web ∨ p.kind = .localPowerShell) ∧ p.arguments.length ≠ 0) := by
  unfold validateExternal at h
  simp only [throwIf_bind_ok_iff] at h
  obtain ⟨-, -, h⟩ := h
  obtain ⟨_, hargs, h⟩ := bind_ok_iff.mp h
  refine ⟨forM_ok_iff.mp hargs, ?_⟩
  split at h
  · exact (throwIf_bind_ok_iff.mp (throwIf_bind_ok_iff.mp h).2).1
  · obtain ⟨-, -, h⟩ := bind_ok_iff.mp h
    obtain ⟨-, -, h⟩ := bind_ok_iff.mp h
    exact (throwIf_bind_ok_iff.mp (throwIf_bind_ok_iff.mp h).2).1

theorem validate_validateExternal (h : validate fw p = .ok ()) (hk : p.kind ≠ .ssh) : validateExternal fw p = .ok () := by
  obtain ⟨-, h⟩ := throwIf_bind_ok_iff.mp h
  rwa [if_neg hk] at h

theorem validate_noArguments (h : validate fw p = .ok ()) (hk : p.kind = .localPowerShell) : p.arguments = [] := by
  have hnone := (validateExternal_ok (validate_validateExternal h (by rw [hk]; nofun))).2
  by_contra hne
  exact hnone ⟨Or.inr (Or.inr hk), fun h0 => hne (List.eq_nil_of_length_eq_zero h0)⟩

/-- A path with a colon that the validator lets through starts at a drive. -/
theorem localPath_of_drive (hlen : 3 < executable.length) (hletter : executable[0]?.any isAsciiLetter = true)
    (hcolon : executable[1]? = some (chr ':'))
    (hsep : executable[2]? = some (chr '\\') ∨ executable[2]? = some (chr '/'))
    (hrest : ¬ (executable.drop 2).contains (chr ':') = true) : LocalPath executable := by
  match executable with
  | letter :: colon :: separator :: rest =>
    simp only [List.getElem?_cons_zero, List.getElem?_cons_succ, Option.any_some, Option.some.injEq] at hletter hcolon hsep
    subst hcolon
    refine .driveAbsolute letter separator rest hletter ?_ ?_
    · rcases hsep with rfl | rfl <;> decide
    · intro hin
      exact hrest (List.contains_iff_mem.mpr (List.mem_cons_of_mem _ hin))

theorem validateExecutablePath_ok (h : validateExecutablePath fw executable = .ok ()) :
    LocalPath executable ∧ ∃ stem ext, executable = stem ++ ext ∧ fw.equalsIgnoreCase ext (str ".exe") = true := by
  unfold validateExecutablePath at h
  simp only [throwIf_bind_ok_iff, throwIf_ok_iff] at h
  obtain ⟨hroot, hform, hsep⟩ := h
  simp only [not_or, not_and_or, not_not] at hroot hform hsep
  obtain ⟨-, -, -, hexe, hcolon, hdrive⟩ := hform
  refine ⟨?_, executable.take (executable.length - 4), _, (List.take_append_drop _ _).symm, hexe.2⟩
  by_cases hc : executable.contains (chr ':') = true
  · obtain ⟨hlen, hletter, hsecond, hthird⟩ := hdrive.resolve_left (not_not_intro hc)
    exact localPath_of_drive hlen hletter hsecond hthird hcolon
  refine .relative executable ?_ (fun hin => hc (List.contains_iff_mem.mpr hin)) ?_
  · intro c hhead
    rw [Option.mem_def] at hhead
    simp only [isSeparator, Bool.or_eq_false_iff, beq_eq_false_iff_ne]
    exact ⟨fun e => hroot.1 (e ▸ hhead), fun e => hroot.2 (e ▸ hhead)⟩
  · rcases hsep with hsep | hsep
    · exact ⟨_, List.contains_iff_mem.mp hsep, by decide⟩
    · exact ⟨_, List.contains_iff_mem.mp hsep, by decide⟩

theorem validateProgram_ok {kind : ConnectionKind} (h : validateProgram fw kind executable = .ok ()) :
    ProgramAllowed fw kind executable := by
  unfold validateProgram at h
  simp only [throwIf_bind_ok_iff, throwIf_ok_iff, List.any_eq_true, not_and, not_not] at h
  obtain ⟨hshell, hterminal⟩ := h
  unfold ProgramAllowed
  by_cases hk : kind = .localPowerShell
  · rw [if_pos hk]
    exact hterminal hk
  · rw [if_neg hk]
    exact fun hin => hk (hshell hin)

theorem webUri_ok {uri : Uri} (h : webUri fw p device = .ok uri) :
    (uri.scheme = str "http" ∨ uri.scheme = str "https") ∧ uri.userInfo = [] := by
  unfold webUri at h
  obtain ⟨-, -, h⟩ := bind_ok_iff.mp h
  obtain ⟨text, -, h⟩ := bind_ok_iff.mp h
  cases hparse : fw.tryCreateUri text with
  | none =>
    rw [hparse] at h
    cases h
  | some parsed =>
    rw [hparse] at h
    dsimp only at h
    split at h
    · cases h
    · rename_i hform
      cases h
      simp only [not_or, not_and_or, not_not] at hform
      exact ⟨hform.1, List.eq_nil_of_length_eq_zero hform.2.2.1⟩

/-! ## What is built -/

theorem hostOf_of_ok {host : Str} (h : networkHost device = .ok host) : host = hostOf device := by
  unfold hostOf
  rw [h]

theorem hostOf_plain (device : Device) : ∀ c ∈ hostOf device, isPlain c = true := by
  unfold hostOf
  cases h : networkHost device with
  | error e => exact fun c hc => nomatch hc
  | ok host => exact networkIdentity_plain h

theorem builtinArguments_ok {args : List Str} (h : builtinArguments fw p device (fileName executable) = .ok args) :
    args = fixedArguments fw p (hostOf device) executable := by
  unfold builtinArguments at h
  unfold fixedArguments
  cases hk : p.kind <;> rw [hk] at h
  case rdp =>
    obtain ⟨host, hhost, h⟩ := bind_ok_iff.mp h
    cases h
    rw [hostOf_of_ok hhost]
    rfl
  case realVnc =>
    obtain ⟨host, hhost, h⟩ := bind_ok_iff.mp h
    cases h
    rw [hostOf_of_ok hhost]
  case moonlight =>
    dsimp only at h ⊢
    by_cases hblank : isNullOrWhiteSpace p.remoteApplication = true
    · rw [if_pos hblank] at h ⊢
      cases h
      rfl
    · rw [if_neg hblank] at h ⊢
      obtain ⟨host, hhost, h⟩ := bind_ok_iff.mp h
      cases h
      rw [hostOf_of_ok hhost]
  all_goals
    cases h
    rfl

theorem fixedArguments_terminal (hk : p.kind = .localPowerShell) (host : Str) :
    fixedArguments fw p host executable = [] ∨ fixedArguments fw p host executable = [str "-NoLogo"] := by
  unfold fixedArguments
  rw [hk]
  dsimp only
  split
  · exact Or.inl rfl
  · exact Or.inr rfl

theorem build_validate (h : build fw p device executable = .ok request) : validate fw p = .ok () := by
  obtain ⟨_, hv, -⟩ := bind_ok_iff.mp h
  exact hv

theorem build_safe (h : build fw p device executable = .ok request) : SafeRequest fw p device request := by
  have hv := build_validate h
  obtain ⟨-, -, h⟩ := bind_ok_iff.mp h
  obtain ⟨-, h⟩ := throwIf_bind_ok_iff.mp h
  unfold SafeRequest
  by_cases hweb : p.kind = .web
  · rw [if_pos hweb] at h ⊢
    obtain ⟨uri, huri, h⟩ := bind_ok_iff.mp h
    cases h
    exact ⟨⟨rfl, rfl⟩, uri, rfl, webUri_ok huri⟩
  · rw [if_neg hweb] at h ⊢
    obtain ⟨_, hpath, h⟩ := bind_ok_iff.mp h
    obtain ⟨_, hprogram, h⟩ := bind_ok_iff.mp h
    obtain ⟨args, hargs, h⟩ := bind_ok_iff.mp h
    obtain ⟨expanded, hexpanded, h⟩ := bind_ok_iff.mp h
    have hfixed := builtinArguments_ok hargs
    have hfilled := mapM_ok (fun _ _ => expand_ok) hexpanded
    cases h
    obtain ⟨hlocal, hexe⟩ := validateExecutablePath_ok hpath
    refine ⟨rfl, hlocal, hexe, validateProgram_ok hprogram, ?_, hostOf_plain device,
      valueOf_plain (effectivePort_nonneg hv), ?_⟩
    · show args ++ expanded = _
      rw [hfixed, hfilled]
      rfl
    · intro hk
      show args ++ expanded = [] ∨ args ++ expanded = _
      rw [hfixed, hfilled, validate_noArguments hv hk, List.map_nil, List.append_nil]
      exact fixedArguments_terminal hk _

/-- A program that is handed on is the one `build` was given, and passed its checks. -/
theorem build_executable (h : build fw p device executable = .ok request) (hk : p.kind ≠ .web) :
    request.executable = executable ∧ validateExecutablePath fw request.executable = .ok () := by
  obtain ⟨-, -, h⟩ := bind_ok_iff.mp h
  obtain ⟨-, h⟩ := throwIf_bind_ok_iff.mp h
  rw [if_neg hk] at h
  obtain ⟨_, hpath, h⟩ := bind_ok_iff.mp h
  obtain ⟨-, -, h⟩ := bind_ok_iff.mp h
  obtain ⟨args, -, h⟩ := bind_ok_iff.mp h
  obtain ⟨expanded, -, h⟩ := bind_ok_iff.mp h
  cases h
  exact ⟨rfl, hpath⟩

end ExternalConnections

/-! ## Handing a request to the system -/

namespace WindowsConnectionLauncher

open ExternalConnections

/-- The parts of a `ProcessStartInfo` that are set. -/
structure ProcessStartInfo where
  fileName : Str
  argumentList : List Str
  useShellExecute : Bool
  deriving DecidableEq, Repr

/-- A `Uri` that was parsed is absolute; its `AbsoluteUri` is its text. -/
def createStartInfo (fw : Framework) (request : LaunchRequest) : Except Exn ProcessStartInfo :=
  match request.webUri with
  | some uri => do
    throwIf ((uri.scheme ≠ str "http" ∧ uri.scheme ≠ str "https") ∨ uri.userInfo.length ≠ 0)
      (.argument "Only HTTP/HTTPS URLs without credentials can be opened.")
    pure { fileName := uri.text, argumentList := [], useShellExecute := true }
  | none => do
    validateExecutablePath fw request.executable
    pure { fileName := request.executable, argumentList := request.arguments, useShellExecute := false }

/-- What `build` returned is started as it is. -/
theorem createStartInfo_build {fw : Framework} {p : ConnectionProfile} {device : Device} {executable : Str}
    {request : LaunchRequest} (h : build fw p device executable = .ok request) :
    createStartInfo fw request = .ok
      (match request.webUri with
        | some uri => { fileName := uri.text, argumentList := [], useShellExecute := true }
        | none => { fileName := request.executable, argumentList := request.arguments, useShellExecute := false }) := by
  have hsafe := build_safe h
  unfold SafeRequest at hsafe
  unfold createStartInfo
  by_cases hk : p.kind = .web
  · rw [if_pos hk] at hsafe
    obtain ⟨uri, huri, hscheme, huser⟩ := hsafe.address
    rw [huri]
    dsimp only
    have hpass : ¬ ((uri.scheme ≠ str "http" ∧ uri.scheme ≠ str "https") ∨ uri.userInfo.length ≠ 0) := by
      rw [huser]
      rcases hscheme with hs | hs <;> simp [hs]
    rw [(throwIf_ok_iff (u := ())).mpr hpass]
    rfl
  · rw [if_neg hk] at hsafe
    rw [hsafe.noAddress]
    dsimp only
    rw [(build_executable h hk).2]
    rfl

end WindowsConnectionLauncher

end MythLab.Connections
