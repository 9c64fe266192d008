/-
  MythLab.Settings.AppSettings — the settings of the application and their limits.

  `validate_ok`: the settings that are accepted; the defaults are.
-/
import MythLab.Lib.Effect
import MythLab.Dotnet.Framework

namespace MythLab.Settings

open Lib Dotnet

inductive AppTheme where
  | system
  | light
  | dark
  | undefined (value : Int)
  deriving DecidableEq, Repr

/-- `Enum.IsDefined` -/
def AppTheme.isDefined : AppTheme → Bool
  | .undefined _ => false
  | _ => true

structure AppSettings where
  theme : AppTheme := .system
  pollingIntervalSeconds : Int := 30
  discoveryConcurrency : Int := 32
  probeTimeoutMilliseconds : Int := 750
  wakeTimeoutSeconds : Int := 120
  wakePollIntervalSeconds : Int := 3
  deriving DecidableEq, Repr

namespace AppSettings

def validate (s : AppSettings) : Except Exn Unit := do
  throwIf (s.wakeTimeoutSeconds < 15 ∨ s.wakeTimeoutSeconds > 600 ∨ s.wakePollIntervalSeconds < 1 ∨
      s.wakePollIntervalSeconds > 30)
    (.argument "Wake timeout must be 15–600 seconds and wake polling 1–30 seconds.")
  throwIf (¬ s.theme.isDefined) (.argument "Select a valid theme.")
  throwIf (s.pollingIntervalSeconds < 5 ∨ s.pollingIntervalSeconds > 3600)
    (.argument "Polling interval must be 5–3600 seconds.")
  throwIf (s.discoveryConcurrency < 1 ∨ s.discoveryConcurrency > 64) (.argument "Discovery concurrency must be 1–64.")
  throwIf (s.probeTimeoutMilliseconds < 100 ∨ s.probeTimeoutMilliseconds > 10000)
    (.argument "Probe timeout must be 100–10000 ms.")

theorem validate_ok {s : AppSettings} (h : s.validate = .ok ()) :
    (15 ≤ s.wakeTimeoutSeconds ∧ s.wakeTimeoutSeconds ≤ 600) ∧
      (1 ≤ s.wakePollIntervalSeconds ∧ s.wakePollIntervalSeconds ≤ 30) ∧ s.theme.isDefined = true ∧
        (5 ≤ s.pollingIntervalSeconds ∧ s.pollingIntervalSeconds ≤ 3600) ∧
          (1 ≤ s.discoveryConcurrency ∧ s.discoveryConcurrency ≤ 64) ∧
            (100 ≤ s.probeTimeoutMilliseconds ∧ s.probeTimeoutMilliseconds ≤ 10000) := by
  obtain ⟨hwake, h⟩ := throwIf_bind_ok_iff.mp h
  obtain ⟨htheme, h⟩ := throwIf_bind_ok_iff.mp h
  obtain ⟨hpolling, h⟩ := throwIf_bind_ok_iff.mp h
  obtain ⟨hconcurrency, h⟩ := throwIf_bind_ok_iff.mp h
  have htimeout := throwIf_ok_iff.mp h
  refine ⟨by omega, by omega, ?_, by omega, by omega, by omega⟩
  rwa [Decidable.not_not] at htheme

example : AppSettings.validate {} = .ok () := rfl

end AppSettings

end MythLab.Settings
