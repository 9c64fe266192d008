/-
  MythLab.Connections.SavedProfiles — a profile that was accepted when it was saved can be
  launched.

  `build` validates again and then makes checks of its own: it fills each template, and
  reads the host of the device and a port. Proved (`saved_profile_builds`): where the
  profile is valid, the device's hostname and address are network identities and the
  executable passes its checks, nothing of this fails. A template that passed
  `validateTemplate` asks for a port only if the profile or its kind has one
  (`port_of_hole`), and every other placeholder has a value (`placeholderValue_returns`).
-/
import MythLab.Connections.LaunchRequest

namespace MythLab.Connections.ExternalConnections

open Lib Dotnet Devices

/-! ## Templates -/

theorem containsText_cons {s word : Str} (c : Char16) (h : containsText s word = true) :
    containsText (c :: s) word = true := by
  unfold containsText at *
  simp only [List.tails, List.any_cons, h, Bool.or_true]

theorem containsText_of_prefix {s word : Str} (h : word <+: s) : containsText s word = true := by
  unfold containsText
  refine List.any_eq_true.mpr ⟨s, ?_, List.isPrefixOf_iff_prefix.mpr h⟩
  cases s <;> simp [List.tails]

/-- A template contains the placeholders it leaves open. -/
theorem containsText_of_hole {q : Placeholder} {s : Str} {skip : Nat} (h : Piece.hole q ∈ piecesFrom skip s) :
    containsText s q.text = true := by
  induction s generalizing skip with
  | nil => simp [piecesFrom] at h
  | cons c s ih =>
    cases skip with
    | succ skip => exact containsText_cons c (ih h)
    | zero =>
      unfold piecesFrom at h
      cases hq : placeholderAt (c :: s) with
      | none =>
        rw [hq] at h
        rcases List.mem_cons.mp h with h | h
        · cases h
        · exact containsText_cons c (ih h)
      | some q' =>
        rw [hq] at h
        rcases List.mem_cons.mp h with h | h
        · cases h
          exact containsText_of_prefix (placeholderAt_starts hq)
        · exact containsText_cons c (ih h)

/-- A template is expanded where each of its placeholders has a value. -/
theorem expand_returns {template : Str} {device : Device} {port : Option Int} (hvalid : validateTemplate template = .ok ())
    (h : ∀ q, .hole q ∈ pieces template → ∃ v, placeholderValue device port q = .ok v) :
    ∃ r, expand template device port = .ok r := by
  have hvalue : ∀ q v, placeholderValue device port q = .ok v → v = valueOf device port q := fun _ _ => valueOf_of_ok
  rcases fillAll_cases hvalue (pieces template) with ⟨q, e, hq, he, -⟩ | ⟨-, hok⟩
  · obtain ⟨v, hv⟩ := h q hq
    cases he.symm.trans hv
  · exact ⟨_, bind_ok_iff.mpr ⟨(), hvalid, (replaceFrom_eq _ 0 template).trans hok⟩⟩

variable {fw : Framework} {p : ConnectionProfile} {device : Device} {executable : Str} {host ip : Str}

/-! ## Values -/

/-- An argument that was accepted asks for a port only where there is one. -/
theorem port_of_hole {argument : Str} (h : validateArgument fw p argument = .ok ()) (hm : .hole .port ∈ pieces argument) :
    ∃ n, effectivePort p = some n := by
  obtain ⟨_, -, h⟩ := bind_ok_iff.mp h
  obtain ⟨hport, -⟩ := throwIf_bind_ok_iff.mp h
  have hcontains : containsText argument Placeholder.port.text = true := containsText_of_hole hm
  refine Option.ne_none_iff_exists'.mp ?_
  intro hnone
  obtain ⟨hp, hk⟩ := Option.or_eq_none_iff.mp hnone
  exact hport ⟨hcontains, hp, hk⟩

/-- What is not blank is the endpoint. -/
theorem endpoint_of_identity (h : networkIdentity device.hostname false = .ok host) : device.endpoint = device.hostname := by
  obtain ⟨_, hrequired, -⟩ := bind_ok_iff.mp h
  unfold Device.endpoint
  rw [if_neg]
  intro hblank
  simp [required, hblank] at hrequired

theorem networkHost_of_identity (h : networkIdentity device.hostname false = .ok host) : networkHost device = .ok host := by
  unfold networkHost
  rwa [endpoint_of_identity h]

theorem placeholderValue_returns (hhost : networkIdentity device.hostname false = .ok host)
    (hip : networkIdentity device.ipv4Address true = .ok ip) {port : Option Int} {q : Placeholder}
    (hport : q = .port → ∃ n, port = some n) : ∃ v, placeholderValue device port q = .ok v := by
  cases q with
  | ip => exact ⟨ip, hip⟩
  | host => exact ⟨host, networkHost_of_identity hhost⟩
  | hostname => exact ⟨host, hhost⟩
  | port =>
    obtain ⟨n, rfl⟩ := hport rfl
    exact ⟨_, rfl⟩

theorem builtinArguments_returns (hhost : networkIdentity device.hostname false = .ok host) (name : Str) :
    ∃ args, builtinArguments fw p device name = .ok args := by
  unfold builtinArguments
  rw [networkHost_of_identity hhost]
  cases p.kind with
  | moonlight =>
    dsimp only
    split
    · exact ⟨_, rfl⟩
    · exact ⟨_, rfl⟩
  | _ => exact ⟨_, rfl⟩

/-! ## The launch -/

/-- What was checked when the profile was saved does not fail when it is launched. -/
theorem saved_profile_builds (hvalid : validate fw p = .ok ()) (hssh : p.kind ≠ .ssh) (hweb : p.kind ≠ .web)
    (hhost : networkIdentity device.hostname false = .ok host) (hip : networkIdentity device.ipv4Address true = .ok ip)
    (hpath : validateExecutablePath fw executable = .ok ()) (hprogram : validateProgram fw p.kind executable = .ok ()) :
    build fw p device executable = .ok
      { executable := executable
        arguments := fixedArguments fw p host executable ++ p.arguments.map (substitute (valueOf device (effectivePort p))) } := by
  obtain ⟨hargs, -⟩ := validateExternal_ok (validate_validateExternal hvalid hssh)
  obtain ⟨args, hbuiltin⟩ : ∃ args, builtinArguments fw p device (fileName executable) = .ok args :=
    builtinArguments_returns hhost _
  have hexpand : ∀ a ∈ p.arguments, ∃ r, expand a device (effectivePort p) = .ok r := by
    intro a ha
    have harg := hargs a ha
    obtain ⟨_, htemplate, -⟩ := bind_ok_iff.mp harg
    refine expand_returns htemplate ?_
    intro q hm
    refine placeholderValue_returns hhost hip ?_
    rintro rfl
    exact port_of_hole harg hm
  obtain ⟨expanded, hexpanded⟩ := mapM_returns hexpand
  have hbuild : build fw p device executable = .ok { executable := executable, arguments := args ++ expanded } := by
    unfold build
    rw [hvalid, ok_bind, throwIf_bind_ok_iff]
    refine ⟨hssh, ?_⟩
    rw [if_neg hweb, hpath, ok_bind, hprogram, ok_bind, hbuiltin, ok_bind]
    exact bind_ok_iff.mpr ⟨expanded, hexpanded, rfl⟩
  rw [hbuild, builtinArguments_ok hbuiltin, ← hostOf_of_ok (networkHost_of_identity hhost),
    mapM_ok (fun _ _ => expand_ok) hexpanded]

/-- A viewer that is given its port by default, and an argument with every placeholder. -/
def viewerProfile : ConnectionProfile :=
  { id := 1, deviceId := 2, displayName := str "Screen", kind := .realVnc,
    arguments := [str "\x7bhost\x7d:\x7bport\x7d/\x7bip\x7d", str "-name=\x7bhostname\x7d"] }

def viewerDevice : Device := { id := 2, displayName := str "PC", hostname := str "pc.local", ipv4Address := str "10.0.0.2" }

theorem viewer_builds : build Framework.ascii viewerProfile viewerDevice (str "Tools/viewer.exe") = .ok
    { executable := str "Tools/viewer.exe"
      arguments := [str "pc.local::5900", str "pc.local:5900/10.0.0.2", str "-name=pc.local"] } := by
  rw [@saved_profile_builds Framework.ascii viewerProfile viewerDevice (str "Tools/viewer.exe") (str "pc.local")
    (str "10.0.0.2") (by decide +kernel) (by decide) (by decide) (by decide +kernel) (by decide +kernel)
    (by decide +kernel) (by decide +kernel)]
  decide +kernel

end MythLab.Connections.ExternalConnections
