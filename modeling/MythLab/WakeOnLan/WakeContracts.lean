/-
  MythLab.WakeOnLan.WakeContracts — what a wake reports while it runs, and what it comes to.
-/
import MythLab.Devices.Device

namespace MythLab.WakeOnLan

open Dotnet Devices

structure WakeProgress where
  state : DeviceState
  detail : Str
  deriving DecidableEq, Repr

structure WakeOutcome where
  observation : StatusObservation
  verified : Bool
  detail : Str
  deriving DecidableEq, Repr

end MythLab.WakeOnLan
