/-
  MythLab.Connections.ExternalConnectionService — opening a connection in another program.

  `launchAsync` validates the profile, asks the locator for the program, builds the
  request, waits for the device's port where the profile says so, and hands the request
  to the launcher. What the locator, the status check and the launcher answer, and when
  the token is cancelled, are the environment's; the program keeps the calls it made.

  Proved (`launch_is_safe`): for every environment the launcher is called at most once,
  and then every check before it passed and the request is safe. A browser is not
  located (`browser_without_a_locator`): the locator may have no program and the
  address is opened all the same.
-/
import MythLab.Connections.LaunchRequest

namespace MythLab.Connections.ExternalConnectionService

open Lib Dotnet Devices ExternalConnections

structure LauncherAvailability where
  available : Bool
  path : Str
  detail : String
  deriving DecidableEq, Repr

/-- A call to the outside. -/
inductive Action where
  | locate (profile : ConnectionProfile)
  | check (device : Device) (timeoutMilliseconds : Int)
  | launch (request : LaunchRequest)
  deriving DecidableEq, Repr

/-- The places at which the token is read, in their order. -/
inductive Place where
  | start
  | locating
  | handOver
  deriving DecidableEq, Repr

def Place.number : Place → Nat
  | .start => 0
  | .locating => 1
  | .handOver => 2

structure Environment where
  locate : ConnectionProfile → Except Exn LauncherAvailability
  checkAsync : Device → Int → Except Exn StatusObservation
  launchAsync : LaunchRequest → Except Exn Unit
  /-- The place by which the token was cancelled; it stays cancelled. -/
  cancelledBy : Option Place

def Environment.cancelled (env : Environment) (place : Place) : Bool :=
  env.cancelledBy.any fun first => first.number ≤ place.number

abbrev Op (α : Type) := Eff (List Action) Exn α

def act {α : Type} (action : Action) (answer : Except Exn α) : Op α := do
  Eff.modify (· ++ [action])
  Eff.lift answer

variable (fw : Framework) (env : Environment)

def throwIfCancellationRequested (place : Place) : Except Exn Unit :=
  throwIf (env.cancelled place = true) .operationCanceled

def availability (profile : ConnectionProfile) : Op LauncherAvailability :=
  if profile.kind = .web then pure { available := true, path := [], detail := "Default web browser" }
  else act (.locate profile) (env.locate profile)

/-- The device as its readiness is checked. -/
def readinessDevice (device : Device) (port : Int) : Device := { device with statusCheck := .tcp, statusPort := port }

def checkReadiness (profile : ConnectionProfile) (device : Device) : Op Unit :=
  match profile.readinessPort with
  | none => pure ()
  | some port => do
    let timeout := profile.timeoutSeconds * 1000
    let result ← act (.check (readinessDevice device port) timeout) (env.checkAsync (readinessDevice device port) timeout)
    Eff.lift (throwIf (result.state ≠ .online)
      (.invalidOperation ("The TCP service is not ready. " ++ text result.detail ++ " No connection was launched.")))

/-- `Task.Run` with a cancelled token does not start. -/
def launchAsync (profile : ConnectionProfile) (device : Device) : Op Unit := do
  Eff.lift (validate fw profile)
  Eff.lift (throwIfCancellationRequested env .start)
  Eff.lift (throwIfCancellationRequested env .locating)
  let found ← availability env profile
  Eff.lift (throwIf (found.available = false) (.invalidOperation found.detail))
  let request ← Eff.lift (build fw profile device found.path)
  checkReadiness env profile device
  Eff.lift (throwIfCancellationRequested env .handOver)
  act (.launch request) (env.launchAsync request)

/-! ## What has been established at the hand-over -/

def Action.launched? : Action → Option LaunchRequest
  | .launch request => some request
  | _ => none

/-- The requests handed to the launcher. -/
def launches (actions : List Action) : List LaunchRequest := actions.filterMap Action.launched?

/-- The locator has the profile's program, at the path of the request. -/
def Located (profile : ConnectionProfile) (request : LaunchRequest) : Prop :=
  ∃ answer, env.locate profile = .ok answer ∧ answer.available = true ∧ request.executable = answer.path

/-- Every readiness check the profile asks for answered Online. -/
def Ready (profile : ConnectionProfile) (device : Device) : Prop :=
  ∀ port ∈ profile.readinessPort, ∃ answer,
    env.checkAsync (readinessDevice device port) (profile.timeoutSeconds * 1000) = .ok answer ∧ answer.state = .online

/-- A request that may be handed over. -/
structure Cleared (profile : ConnectionProfile) (device : Device) (request : LaunchRequest) : Prop where
  valid : validate fw profile = .ok ()
  located : profile.kind ≠ .web → Located env profile request
  ready : Ready env profile device
  uncancelled : ∀ place, env.cancelled place = false
  safe : SafeRequest fw profile device request

@[simp] theorem launches_snoc (actions : List Action) (a : Action) :
    launches (actions ++ [a]) = launches actions ++ a.launched?.toList := by
  unfold launches
  rw [List.filterMap_append]
  cases a <;> rfl

variable {fw env} {profile : ConnectionProfile} {device : Device} {actions : List Action}

/-- A token that is not cancelled at the hand-over was not cancelled before. -/
theorem uncancelled_of_handOver (h : env.cancelled .handOver = false) (place : Place) : env.cancelled place = false := by
  unfold Environment.cancelled at *
  cases hby : env.cancelledBy with
  | none => rfl
  | some first =>
    rw [hby] at h
    cases first <;> cases h

theorem act_wp {α : Type} {a : Action} {answer : Except Exn α} {Q : Except Exn α → List Action → Prop} :
    Eff.wp (act a answer) Q actions ↔ Q answer (actions ++ [a]) := Iff.rfl

theorem availability_wp : Eff.wp (availability env profile)
    (fun r actions' => launches actions' = launches actions ∧ ∀ found, r = .ok found → profile.kind ≠ .web →
      env.locate profile = .ok found) actions := by
  unfold availability
  refine Eff.wp_ite ?_ ?_
  · intro hweb
    exact ⟨rfl, fun _ _ hk => absurd hweb hk⟩
  · intro _
    rw [act_wp]
    exact ⟨by simp [Action.launched?], fun found hr _ => hr⟩

theorem checkReadiness_wp : Eff.wp (checkReadiness env profile device)
    (fun r actions' => launches actions' = launches actions ∧ ∀ u, r = .ok u → Ready env profile device) actions := by
  unfold checkReadiness Ready
  cases profile.readinessPort with
  | none => exact ⟨rfl, fun _ _ _ hp => nomatch hp⟩
  | some port =>
    dsimp only
    rw [Eff.wp_bind, act_wp]
    have hquiet : launches (actions ++ [.check (readinessDevice device port) (profile.timeoutSeconds * 1000)]) =
        launches actions := by simp [Action.launched?]
    cases hanswer : env.checkAsync (readinessDevice device port) (profile.timeoutSeconds * 1000) with
    | error e => exact ⟨hquiet, nofun⟩
    | ok answer =>
      refine ⟨hquiet, ?_⟩
      rintro u hu _ ⟨⟩
      exact ⟨answer, hanswer, not_not.mp (throwIf_ok_iff.mp hu)⟩

/-- No request is handed over, or one that is cleared. -/
theorem launchAsync_wp (h : launches actions = []) : Eff.wp (launchAsync fw env profile device)
    (fun _ actions' => launches actions' = [] ∨
      ∃ request, launches actions' = [request] ∧ Cleared fw env profile device request) actions := by
  unfold launchAsync
  refine Eff.wp_lift_step (fun _ _ => Or.inl h) ?_
  intro _ hvalid
  refine Eff.wp_lift_step (fun _ _ => Or.inl h) ?_
  intro _ _
  refine Eff.wp_lift_step (fun _ _ => Or.inl h) ?_
  intro _ _
  rw [Eff.wp_bind]
  refine Eff.wp_mono availability_wp ?_
  rintro found actions₁ ⟨hquiet, hfound⟩
  rw [h] at hquiet
  cases found with
  | error e => exact Or.inl hquiet
  | ok found =>
    refine Eff.wp_lift_step (fun _ _ => Or.inl hquiet) ?_
    intro _ havailable
    refine Eff.wp_lift_step (fun _ _ => Or.inl hquiet) ?_
    intro request hbuild
    rw [Eff.wp_bind]
    refine Eff.wp_mono checkReadiness_wp ?_
    rintro ready actions₂ ⟨hsame, hready⟩
    rw [hquiet] at hsame
    cases ready with
    | error e => exact Or.inl hsame
    | ok ready =>
      refine Eff.wp_lift_step (fun _ _ => Or.inl hsame) ?_
      intro _ hcancelled
      rw [act_wp]
      refine Or.inr ⟨request, by simp [hsame, Action.launched?], hvalid, ?_, hready ready rfl, ?_, build_safe hbuild⟩
      · intro hk
        have hpresent := (Bool.not_eq_false _).mp (throwIf_ok_iff.mp havailable)
        exact ⟨found, hfound found rfl hk, hpresent, (build_executable hbuild hk).1⟩
      · exact uncancelled_of_handOver ((Bool.not_eq_true _).mp (throwIf_ok_iff.mp hcancelled))

/-! ## The calls of a launch -/

/-- What `launchAsync` called, in the order of the calls. -/
def calls (fw : Framework) (env : Environment) (profile : ConnectionProfile) (device : Device) : List Action :=
  (launchAsync fw env profile device []).2

/-- Whatever the locator, the status check and the token do, at most one request is
    handed to the launcher, and only one that is cleared. -/
theorem launch_is_safe (fw : Framework) (env : Environment) (profile : ConnectionProfile) (device : Device) :
    (launches (calls fw env profile device)).length ≤ 1 ∧
      ∀ request ∈ launches (calls fw env profile device), Cleared fw env profile device request := by
  have h : launches (calls fw env profile device) = [] ∨
      ∃ request, launches (calls fw env profile device) = [request] ∧ Cleared fw env profile device request :=
    @launchAsync_wp fw env profile device [] rfl
  rcases h with h | ⟨request, h, hcleared⟩
  · rw [h]
    exact ⟨Nat.zero_le _, nofun⟩
  · rw [h]
    refine ⟨Nat.le_refl _, ?_⟩
    intro handed hm
    rw [List.mem_singleton.mp hm]
    exact hcleared

/-! ## The browser -/

/-- A connection to a web page, on a machine where the locator finds nothing. -/
def pageProfile : ConnectionProfile :=
  { id := 1, deviceId := 2, displayName := str "Router", kind := .web, urlTemplate := str "http://\x7bhost\x7d/" }

def pageDevice : Device := { id := 2, displayName := str "Router", hostname := str "router.local" }

def nothingFound : Environment where
  locate _ := .ok { available := false, path := [], detail := "Web is not installed or detected." }
  checkAsync _ _ := .ok { state := .online, checkedAt := ⟨0, 0⟩ }
  launchAsync _ := .ok ()
  cancelledBy := none

/-- A page is opened although the locator reports nothing available: it is not asked. -/
theorem browser_without_a_locator :
    ¬ ∀ (fw : Framework) (env : Environment) (profile : ConnectionProfile) (device : Device),
      ∀ request ∈ launches (calls fw env profile device),
        ∃ answer, env.locate profile = .ok answer ∧ answer.available = true := by
  intro h
  have hopened : (launches (calls Framework.ascii nothingFound pageProfile pageDevice)).length = 1 := by
    decide +kernel
  obtain ⟨request, hrequest⟩ := List.length_eq_one_iff.mp hopened
  obtain ⟨answer, hanswer, havailable⟩ :=
    h Framework.ascii nothingFound pageProfile pageDevice request (by rw [hrequest]; exact List.mem_singleton_self _)
  cases hanswer
  cases havailable

end MythLab.Connections.ExternalConnectionService
