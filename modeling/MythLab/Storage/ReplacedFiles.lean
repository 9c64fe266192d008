/-
  MythLab.Storage.ReplacedFiles — the settings file and the known-hosts file are replaced
  in one step, or not at all (`files_replaced_atomically`).

  Both stores write a temporary file and move it over the old one, each in its own code.
  Whatever was in the file and whichever calls throw or see a cancellation: a call that
  returns has put the new bytes there and changed no other file, and one that throws has
  changed no file, unless the deletion of the temporary file threw as well.
-/
import MythLab.Ssh.KnownHostsReplacement
import MythLab.Storage.SettingsStore

namespace MythLab.Storage

open Lib Dotnet Settings Ssh

/-- `SaveAsync`, with what `LoadAsync` says after it, and `UpdateAsync`, whose wait at the
    gate is given up or ends with the permit in hand. -/
theorem files_replaced_atomically :
    (∀ (json : SettingsStore.Json) (faults : Nat → Fault Exn) (settings : AppSettings) (name : Guid)
        (w : World SettingsStore.State SettingsStore.Site),
      w.state.files (.temporary name) = none → w.state.permits = 1 →
      (SettingsStore.save json faults settings name).wp (fun r w' =>
        (SettingsStore.replacing name).Replaced .delete w
          (fun bytes => settings.validate = .ok () ∧ bytes = json.serialize settings) r w' ∧
        (r = .ok () → json.deserialize (json.serialize settings) = .ok (some settings) →
          ∀ faults', (SettingsStore.load json faults').wp (Yields faults' w'.state (.ok settings)) w')) w) ∧
    (∀ (fw : Framework) (json : Json) (faults : Nat → Fault Exn)
        (change : List KnownHost → Except Exn (List KnownHost)) (name : Guid)
        (w : World KnownHostsStore.State KnownHostsStore.Site),
      (∀ i w', KnownHostsStore.step fw json faults w (.abandon i) = some w' → w'.state.files = w.state.files) ∧
      (w.state.files (.temporary name) = none → w.state.gate.permits = 0 →
        (KnownHostsStore.update fw json faults change name).wp
          ((KnownHostsStore.replacing name).Replaced .delete w
            (KnownHostsStore.Revised fw json change (w.state.files .knownHosts))) w)) := by
  refine ⟨?_, ?_⟩
  · intro json faults settings name w hfresh hpermit
    refine Eff.wp_mono (SettingsStore.save_replaces hfresh hpermit) ?_
    intro r w' ⟨hreplaced, hpermit'⟩
    refine ⟨hreplaced, ?_⟩
    intro hr hjson faults'
    subst hr
    obtain ⟨bytes, ⟨hvalid, rfl⟩, hfile⟩ := hreplaced.target_new
    have hstored : SettingsStore.stored json (w'.state.files .settings) = .ok settings := by
      rw [show w'.state.files .settings = _ from hfile]
      exact SettingsStore.stored_serialize hvalid hjson
    rw [← hstored]
    exact SettingsStore.load_spec hpermit'
  · intro fw json faults change name w
    refine ⟨?_, fun hfresh hpermits => KnownHostsStore.update_replaces hfresh hpermits⟩
    intro i w' hs
    cases hs
    rfl

/-! ## Two calls -/

def dark : AppSettings := { theme := .dark, pollingIntervalSeconds := 60 }

/-- The text that `JsonSerializer` makes of settings. -/
def settingsText (s : AppSettings) : List UInt8 :=
  let number : AppTheme → Int
    | .system => 0
    | .light => 1
    | .dark => 2
    | .undefined value => value
  let field (name : String) (value : Int) : Str := str "\"" ++ str name ++ str "\":" ++ str (toString value)
  let text := str "\x7b" ++ join (str ",") [field "Theme" (number s.theme),
    field "PollingIntervalSeconds" s.pollingIntervalSeconds, field "DiscoveryConcurrency" s.discoveryConcurrency,
    field "ProbeTimeoutMilliseconds" s.probeTimeoutMilliseconds, field "WakeTimeoutSeconds" s.wakeTimeoutSeconds,
    field "WakePollIntervalSeconds" s.wakePollIntervalSeconds] ++ str "\x7d"
  text.map UInt16.toUInt8

/-- `JsonSerializer` on the settings; it reads only the text of `dark`. -/
def settingsJson : SettingsStore.Json where
  serialize := settingsText
  deserialize bytes :=
    if bytes = settingsText dark then .ok (some dark) else .error (.json "The JSON value could not be converted.")

/-- The settings file is broken, and nothing is called yet. -/
def brokenSettings : World SettingsStore.State SettingsStore.Site :=
  ⟨{ files := Function.update (fun _ => none) .settings (some [123, 32, 98]), permits := 1 }, []⟩

/-- The update of an empty list has the permit. -/
def emptyHosts : World KnownHostsStore.State KnownHostsStore.Site :=
  ⟨{ files := Function.update (fun _ => none) .knownHosts (some [91, 93]), temporary := none, gate := ⟨0, [], []⟩ }, []⟩

/-- The move of the temporary file throws. -/
def moveThrows : Nat → Fault Exn
  | 6 => .throws false (.io "The process cannot access the file.")
  | _ => .none

/-- `dark` is saved over the broken file. -/
def darkSaved : Except Exn Unit × World SettingsStore.State SettingsStore.Site :=
  SettingsStore.save settingsJson (fun _ => .none) dark 1 brokenSettings

/-- A host is trusted, but the move throws. -/
def hostRefused : Except Exn Unit × World KnownHostsStore.State KnownHostsStore.Site :=
  KnownHostsStore.update Framework.ascii Json.plain moveThrows (KnownHosts.trust KnownHostsStore.nas) 1 emptyHosts

theorem dark_saved_and_host_refused :
    (darkSaved.2.state.files .settings = some (settingsJson.serialize dark) ∧
      (SettingsStore.load settingsJson (fun _ => .none) darkSaved.2).1 = .ok dark) ∧
    hostRefused.2.state.files = emptyHosts.state.files := by
  obtain ⟨hsettings, hhosts⟩ := files_replaced_atomically
  have hsave := hsettings settingsJson (fun _ => .none) dark 1 brokenSettings rfl rfl
  have hupdate := (hhosts Framework.ascii Json.plain moveThrows (KnownHosts.trust KnownHostsStore.nas) 1 emptyHosts).2 rfl rfl
  refine ⟨?_, ?_⟩
  · have hrun : SettingsStore.save settingsJson (fun _ => .none) dark 1 brokenSettings = darkSaved := rfl
    unfold Eff.wp at hsave
    rw [hrun] at hsave
    obtain ⟨hreplaced, hload⟩ := hsave
    have hok : darkSaved.1 = .ok () := eq_ok_of_threw (by decide +kernel)
    have hjson : settingsJson.deserialize (settingsJson.serialize dark) = .ok (some dark) := by
      simp only [settingsJson, if_true]
    generalize darkSaved = saved at hreplaced hload hok ⊢
    rw [hok] at hreplaced
    obtain ⟨bytes, ⟨-, rfl⟩, hfile⟩ := hreplaced.target_new
    have hloaded := hload hok hjson fun _ => .none
    exact ⟨hfile, Yields.eq_of_none hloaded⟩
  · have hrun : KnownHostsStore.update Framework.ascii Json.plain moveThrows (KnownHosts.trust KnownHostsStore.nas) 1
        emptyHosts = hostRefused := rfl
    unfold Eff.wp at hupdate
    rw [hrun] at hupdate
    have hthrew : ∃ e, hostRefused.1 = .error e := eq_error_of_threw (by decide +kernel)
    have hdeleted : (hostRefused.2.calls.all fun c => c ≠ ⟨.delete, true⟩) = true := by decide +kernel
    generalize hostRefused = refused at hupdate hthrew hdeleted ⊢
    obtain ⟨made, hmade, houtcome⟩ := hupdate
    obtain ⟨e, he⟩ := hthrew
    rw [he] at houtcome
    rcases houtcome with hsame | ⟨hmem, -⟩
    · exact hsame
    · change refused.2.calls = made at hmade
      rw [← hmade] at hmem
      have hnot := List.all_eq_true.mp hdeleted _ hmem
      exact absurd rfl (of_decide_eq_true hnot)

end MythLab.Storage
