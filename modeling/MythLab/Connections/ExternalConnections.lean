/-
  MythLab.Connections.ExternalConnections — the connection profiles that may be stored,
  and the templates their arguments and addresses are written in.

  Proved: a valid SSH profile names a credential and any other valid profile names none
  (`validate_ssh`, `validate_external`).
-/
import MythLab.Devices.DeviceRules
import MythLab.Connections.ConnectionProfile

namespace MythLab.Connections.ExternalConnections

open Lib Dotnet Devices

def defaultPort : ConnectionKind → Option Int
  | .rdp => some 3389
  | .realVnc => some 5900
  | _ => none

/-- A port or timeout that is given and out of its range. -/
def outOfRange (low high : Int) : Option Int → Bool
  | some n => n < low || n > high
  | none => false

/-! ## Templates -/

inductive Placeholder where
  | ip
  | host
  | hostname
  | port
  deriving DecidableEq, Repr

def Placeholder.text : Placeholder → Str
  | .ip => str "\x7bip\x7d"
  | .host => str "\x7bhost\x7d"
  | .hostname => str "\x7bhostname\x7d"
  | .port => str "\x7bport\x7d"

/-- The placeholder a text starts with. -/
def placeholderAt (s : Str) : Option Placeholder :=
  [Placeholder.ip, .host, .hostname, .port].find? fun p => p.text.isPrefixOf s

/-- `Placeholder().Replace(template, f)`, the first `skip` characters being part of a
    placeholder already replaced. -/
def replaceFrom (f : Placeholder → Except Exn Str) : Nat → Str → Except Exn Str
  | _, [] => pure []
  | skip + 1, _ :: s => replaceFrom f skip s
  | 0, c :: s =>
    match placeholderAt (c :: s) with
    | some p => do
      let value ← f p
      let rest ← replaceFrom f (p.text.length - 1) s
      pure (value ++ rest)
    | none => do
      let rest ← replaceFrom f 0 s
      pure (c :: rest)

def replacePlaceholders (f : Placeholder → Except Exn Str) (template : Str) : Except Exn Str := replaceFrom f 0 template

def validateTemplate (value : Str) : Except Exn Unit := do
  let remaining ← replacePlaceholders (fun _ => pure []) value
  throwIf (value.any isControl ∨ remaining.any fun c => c.toNat = 0x7B ∨ c.toNat = 0x7D)
    (.argument "Only {ip}, {host}, {hostname} and {port} placeholders are supported. Never enter secrets.")

def required (value : Str) : Except Exn Str :=
  if ¬ isNullOrWhiteSpace value ∧ ¬ value.any isControl then pure value
  else throw (.argument "This device is missing a required host/IP value.")

/-- A label of a host name that is not accepted. -/
def badLabel (label : Str) : Bool :=
  label.length < 1 || label.length > 63 || label.head? == some (chr '-') || label.getLast? == some (chr '-') ||
    label.any fun c => !isAsciiLetterOrDigit c && c != chr '-'

def networkIdentity (value : Str) (ipOnly : Bool) : Except Exn Str := do
  let host ← required value
  if ipOnly ∨ host.all fun c => isAsciiDigit c || c == chr '.' then
    let octets := split (chr '.') host
    if octets.length ≠ 4 ∨ octets.any DeviceRules.badOctet then
      throw (.argument "The device needs a valid dotted IPv4 address without leading zeros.")
    else pure host
  else if host.length > 253 ∨ (split (chr '.') host).any badLabel then
    throw (.argument "The device needs a valid DNS hostname without options, whitespace or shell syntax.")
  else pure host

/-- The value of a placeholder for a device. -/
def placeholderValue (device : Device) (port : Option Int) : Placeholder → Except Exn Str
  | .ip => networkIdentity device.ipv4Address true
  | .host => networkIdentity device.endpoint false
  | .hostname => networkIdentity device.hostname false
  | .port =>
    match port with
    | some n => pure (str (toString n))
    | none => throw (.argument "Set a port to use {port}.")

def expand (template : Str) (device : Device) (port : Option Int) : Except Exn Str := do
  validateTemplate template
  replacePlaceholders (placeholderValue device port) template

def webUri (fw : Framework) (profile : ConnectionProfile) (device : Device) : Except Exn Uri := do
  validateTemplate profile.urlTemplate
  let text ← replacePlaceholders
    (fun p => do
      let value ← expand p.text device profile.port
      pure (fw.escapeDataString value))
    profile.urlTemplate
  match fw.tryCreateUri text with
  | some uri =>
    if (uri.scheme ≠ str "http" ∧ uri.scheme ≠ str "https") ∨ isNullOrWhiteSpace uri.host ∨ uri.userInfo.length ≠ 0 ∨
        text.contains (chr '\\') ∨ text.any isControl then
      throw (.argument "Enter an HTTP/HTTPS URL without embedded credentials.")
    else pure uri
  | none => throw (.argument "Enter an HTTP/HTTPS URL without embedded credentials.")

/-! ## Executables -/

def validateExecutablePath (fw : Framework) (path : Str) : Except Exn Unit := do
  throwIf (path.head? = some (chr '\\') ∨ path.head? = some (chr '/'))
    (.argument "External executables must be local files. Network and device paths are not supported.")
  throwIf (path ≠ trim path ∨ path.any isControl ∨
      path.any (fun c => [0x22, 0x3C, 0x3E, 0x7C, 0x2A, 0x3F, 0x7B, 0x7D].contains c.toNat) ∨
      ¬ (4 ≤ path.length ∧ fw.equalsIgnoreCase (path.drop (path.length - 4)) (str ".exe")) ∨
      (path.drop 2).contains (chr ':') ∨
      (path.contains (chr ':') ∧
        ¬ (path.length > 3 ∧ path[0]?.any isAsciiLetter ∧ path[1]? = some (chr ':') ∧
          (path[2]? = some (chr '\\') ∨ path[2]? = some (chr '/')))))
    (.argument "Choose an .exe path, absolute or relative to MythLab. Do not include quotes or arguments.")
  throwIf (¬ path.contains (chr '\\') ∧ ¬ path.contains (chr '/'))
    (.argument "Use an explicit executable path (for example ./Tools/viewer.exe).")

/-- `Path.GetFileName(executable.Replace('\\', '/'))`, of a path that passed
    `validateExecutablePath`. -/
def fileName (executable : Str) : Str := executable.rtakeWhile fun c => c != chr '\\' && c != chr '/'

def validateProgram (fw : Framework) (kind : ConnectionKind) (executable : Str) : Except Exn Unit := do
  let name := fileName executable
  let isOneOf (names : List String) : Bool := names.any fun n => fw.equalsIgnoreCase (str n) name
  throwIf (isOneOf ["cmd.exe", "powershell.exe", "pwsh.exe", "wt.exe", "wscript.exe", "cscript.exe", "mshta.exe"] ∧
      kind ≠ .localPowerShell)
    (.argument "Use the restricted Terminal profile for local shells. Shell command profiles are not supported.")
  throwIf (kind = .localPowerShell ∧ ¬ isOneOf ["powershell.exe", "pwsh.exe", "wt.exe"])
    (.argument "Select powershell.exe, pwsh.exe or wt.exe for the local terminal.")

/-! ## Arguments -/

/-- `s` starts with `word`, and what follows it. -/
def stripWord (fw : Framework) : Str → Str → Option Str
  | [], s => some s
  | _ :: _, [] => none
  | a :: word, c :: s => if fw.sameIgnoringCase a c then stripWord fw word s else none

/-- `(?i)^(?:--?|/)?(?:password|…|pw)(?:$|[=: ])`; `$` also matches before a final line
    feed. -/
def looksLikeSecretOption (fw : Framework) (argument : Str) : Bool :=
  ["", "-", "--", "/"].any fun lead =>
    ["password", "passwd", "passphrase", "secret", "token", "pin", "pw"].any fun word =>
      match stripWord fw (str lead ++ str word) argument with
      | some rest =>
        rest == [] || rest == [chr '\n'] || rest.head?.any fun c => c == chr '=' || c == chr ':' || c == chr ' '
      | none => false

/-- `(?i)^https?://[^/]*@` -/
def hasUserInfo (fw : Framework) (argument : Str) : Bool :=
  ["http://", "https://"].any fun scheme =>
    match stripWord fw (str scheme) argument with
    | some rest => (rest.takeWhile (· != chr '/')).contains (chr '@')
    | none => false

def validateArgument (fw : Framework) (p : ConnectionProfile) (argument : Str) : Except Exn Unit := do
  validateTemplate argument
  throwIf (containsText argument Placeholder.port.text ∧ p.port = none ∧ defaultPort p.kind = none)
    (.argument "Set a port before using {port} in an argument.")
  throwIf (looksLikeSecretOption fw argument ∨ hasUserInfo fw argument)
    (.argument "Credentials and authentication arguments are not supported. Authenticate in the external application.")

/-! ## Validation -/

/-- The checks of a profile that another program opens. -/
def validateExternal (fw : Framework) (p : ConnectionProfile) : Except Exn Unit := do
  throwIf (p.credentialId ≠ none)
    (.argument "External connections do not use MythLab credentials. Authenticate in the external application.")
  throwIf (p.arguments.length > 64 ∨
      p.arguments.any fun a => isNullOrWhiteSpace a || a.length > 4096 || a.any isControl)
    (.argument "Use at most 64 non-secret arguments, each on its own line.")
  p.arguments.forM (validateArgument fw p)
  if p.executablePath = [] then pure ()
  else do
    validateExecutablePath fw p.executablePath
    validateProgram fw p.kind p.executablePath
  throwIf (p.kind = .custom ∧ isNullOrWhiteSpace p.executablePath)
    (.argument "Choose an executable for this custom profile.")
  throwIf ((p.kind = .rdp ∨ p.kind = .web ∨ p.kind = .localPowerShell) ∧ p.arguments.length ≠ 0)
    (.argument "This connection type does not accept extra command arguments.")
  if p.kind = .web then
    discard (webUri fw p { id := Guid.empty, hostname := str "example.invalid", ipv4Address := str "192.0.2.1" })
  else pure ()
  throwIf (p.kind = .moonlight ∧ (p.remoteApplication.length > 256 ∨ p.remoteApplication.any isControl ∨
      p.remoteApplication.head? = some (chr '-')))
    (.argument "Enter a valid Moonlight app name.")
  throwIf (p.kind = .localPowerShell ∧ p.readinessPort ≠ none)
    (.argument "A local terminal does not need remote readiness checks.")

def validate (fw : Framework) (p : ConnectionProfile) : Except Exn Unit := do
  throwIf (p.id = Guid.empty ∨ p.deviceId = Guid.empty ∨ isNullOrWhiteSpace p.displayName ∨ p.displayName.length > 120 ∨
      ¬ p.kind.isDefined ∨ outOfRange 1 65535 p.port ∨ outOfRange 1 65535 p.readinessPort ∨
      p.timeoutSeconds < 5 ∨ p.timeoutSeconds > 300)
    (.argument "Enter a name, device, valid ports (1-65535) and timeout (5-300 seconds).")
  if p.kind = .ssh then
    throwIf (p.credentialId = none ∨ p.credentialId = some Guid.empty ∨ p.port = none)
      (.argument "SSH needs a saved credential and a port.")
  else validateExternal fw p

theorem validate_ssh {fw : Framework} {p : ConnectionProfile} (h : validate fw p = .ok ()) (hk : p.kind = .ssh) :
    ∃ c, p.credentialId = some c := by
  obtain ⟨-, h⟩ := throwIf_bind_ok_iff.mp h
  rw [if_pos hk, throwIf_ok_iff] at h
  exact Option.ne_none_iff_exists'.mp fun hn => h (Or.inl hn)

theorem validate_external {fw : Framework} {p : ConnectionProfile} (h : validate fw p = .ok ()) (hk : p.kind ≠ .ssh) :
    p.credentialId = none := by
  obtain ⟨-, h⟩ := throwIf_bind_ok_iff.mp h
  rw [if_neg hk] at h
  obtain ⟨hn, -⟩ := throwIf_bind_ok_iff.mp h
  exact not_not.mp hn

end MythLab.Connections.ExternalConnections
