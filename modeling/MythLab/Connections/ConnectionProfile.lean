/-
  MythLab.Connections.ConnectionProfile — a connection to a device, and the credential
  metadata it may refer to. Secrets are not part of either.
-/
import MythLab.Dotnet.Framework

namespace MythLab.Credentials

open Dotnet

inductive AuthenticationKind where
  | password
  | privateKey
  | undefined (value : Int)
  deriving DecidableEq, Repr

def AuthenticationKind.isDefined : AuthenticationKind → Bool
  | .undefined _ => false
  | _ => true

structure CredentialReference where
  id : Guid
  displayLabel : Str := []
  username : Str := []
  authentication : AuthenticationKind := .password
  privateKeyPath : Str := []
  deriving DecidableEq, Repr

end MythLab.Credentials

namespace MythLab.Connections

open Dotnet

inductive ConnectionKind where
  | ssh
  | realVnc
  | moonlight
  | web
  | localPowerShell
  | custom
  | rdp
  | undefined (value : Int)
  deriving DecidableEq, Repr

def ConnectionKind.isDefined : ConnectionKind → Bool
  | .undefined _ => false
  | _ => true

structure ConnectionProfile where
  id : Guid
  deviceId : Guid := Guid.empty
  displayName : Str := []
  kind : ConnectionKind := .ssh
  credentialId : Option Guid := none
  port : Option Int := none
  executablePath : Str := []
  arguments : List Str := []
  urlTemplate : Str := []
  remoteApplication : Str := []
  rdpFullscreen : Bool := false
  wakeAndConnect : Bool := false
  readinessPort : Option Int := none
  timeoutSeconds : Int := 120
  deriving DecidableEq, Repr

end MythLab.Connections
