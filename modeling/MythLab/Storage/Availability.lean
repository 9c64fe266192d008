/-
  MythLab.Storage.Availability — the stored availability of a device is a register whose
  later check wins.

  `recorded` is the pair an observation writes, the state and the time of the check. An
  observation of the stored target puts its own pair (`recorded_observe`), a save that
  keeps the target leaves the pair (`mergeSaved_kept`), a call about another device leaves
  the row. So along a run whose calls keep the target the pair is what the register holds
  after the observations that arrived (`runs_recorded`), and their order does not matter
  (`last_check_wins`).
-/
import Mathlib.Data.Int.ConditionallyCompleteOrder
import Mathlib.Order.ConditionallyCompleteLattice.Basic
import MythLab.Lib.Register
import MythLab.Storage.Observations

namespace MythLab.Storage.Availability

open Lib Dotnet Devices Repository Identity Observations

/-! ## The register -/

abbrev Recorded := DeviceState × Option DateTimeOffset

def recorded (d : Device) : Recorded := (d.lastKnownState, d.lastChecked)

def written (o : StatusObservation) : Recorded := (o.state, some o.checkedAt)

/-- The instant of a nullable time; null is before all of them. -/
def instant : Option DateTimeOffset → WithBot Int
  | some t => t.utcTicks
  | none => ⊥

def checked (a : Recorded) : WithBot Int := instant a.2

theorem laterThan_iff (a : Option DateTimeOffset) (b : DateTimeOffset) :
    laterThan a (some b) = true ↔ instant (some b) < instant a := by
  cases a with
  | none => simp [laterThan, instant]
  | some a => simp [laterThan, instant]

/-- An observation of the stored target puts what it observed. -/
theorem recorded_observe {current expected : Device} (o : StatusObservation) (v : Bool)
    (h : DeviceTargets.sameStatus current expected = true) :
    recorded (observe current expected o v) = Register.put checked (recorded current) (written o) := by
  have hlater := laterThan_iff current.lastChecked o.checkedAt
  unfold observe accepts Register.put
  rw [h, Bool.true_and]
  by_cases hl : laterThan current.lastChecked (some o.checkedAt) = true
  · rw [if_neg (by simp [hl]), if_pos]
    exact hlater.mp hl
  · rw [if_pos (by simpa using hl), if_neg]
    · rfl
    · intro hlt
      exact hl (hlater.mpr hlt)

theorem sameStatus_observe (current expected d : Device) (o : StatusObservation) (v : Bool) :
    DeviceTargets.sameStatus (observe current expected o v) d = DeviceTargets.sameStatus current d := by
  unfold observe
  split <;> rfl

/-! ## Calls that keep the target -/

/-- A request that, if it is accepted, leaves the device stored with the status target of
    `d`: an observation of that target, a save that keeps it, or a request about
    something else. -/
def KeepsTarget (fw : Framework) (d : Device) : Request → Prop
  | .saveDevice device => device.id = d.id → ∀ normalized, DeviceRules.normalizeAndValidate fw device = .ok normalized →
      DeviceTargets.sameStatus d normalized = true
  | .applyObservation expected _ _ => expected.id = d.id → DeviceTargets.sameStatus d expected = true
  | .deleteDevice id => id ≠ d.id
  | _ => True

/-- The observation of the device that a request carries. -/
def observations (id : Guid) : Request → List StatusObservation
  | .applyObservation expected o _ => if expected.id = id then [o] else []
  | _ => []

/-- The device of `d` is stored, with the status target of `d` and the availability `a`. -/
def Shows (db : Database) (d : Device) (a : Recorded) : Prop :=
  ∃ row ∈ db.devices.rows, row.id = d.id ∧ DeviceTargets.sameStatus d row.document = true ∧ recorded row.document = a

theorem save_shows {fw : Framework} {d device : Device} {db db' : Database} {a : Recorded}
    (hids : ∀ row ∈ db.devices.rows, row.id = row.document.id) (hshows : Shows db d a)
    (hkeeps : KeepsTarget fw d (.saveDevice device)) (hid : device.id = d.id) (h : saveDevice fw device db = .ok db') :
    Shows db' d a := by
  obtain ⟨row, hrow, hrid, hsame, hrec⟩ := hshows
  obtain ⟨n, hn, -⟩ := saveDevice_ok h
  have hnid := (DeviceRules.normalizeAndValidate_fields hn).1
  have hkey : row.id = n.id := hrid.trans (hid.symm.trans hnid.symm)
  obtain ⟨-, -, rfl⟩ := (saveDevice_stored hids hrow hn hkey).mp h
  have hdn : DeviceTargets.sameStatus d n = true := hkeeps hid n hn
  have hkept : DeviceTargets.sameStatus row.document n = true := by
    rw [DeviceTargets.sameStatus_comm] at hsame
    exact DeviceTargets.sameStatus_trans hsame hdn
  obtain ⟨hstate, hchecked, -⟩ := mergeSaved_kept hkept
  refine ⟨_, setDevice_mem _ hrow hkey, hnid.trans hid, hdn, ?_⟩
  rw [← hrec]
  exact Prod.ext hstate hchecked

theorem observation_shows {d expected : Device} {o : StatusObservation} {v : Bool} {db db' : Database}
    {result : Option Device} {a : Recorded} (hids : ∀ row ∈ db.devices.rows, row.id = row.document.id)
    (hshows : Shows db d a) (hkeeps : DeviceTargets.sameStatus d expected = true) (hid : expected.id = d.id)
    (h : applyObservation expected o v db = .ok (result, db')) : Shows db' d (Register.put checked a (written o)) := by
  obtain ⟨row, hrow, hrid, hsame, hrec⟩ := hshows
  obtain ⟨r, hr⟩ := applyObservation_stored expected v hids hrow (hrid.trans hid.symm) (applyObservation_ok h).1
  cases h.symm.trans hr
  have hcurrent : DeviceTargets.sameStatus row.document expected = true := by
    rw [DeviceTargets.sameStatus_comm] at hsame
    exact DeviceTargets.sameStatus_trans hsame hkeeps
  refine ⟨observedRow row expected o v, setDevice_mem _ hrow rfl, hrid, ?_, ?_⟩
  · rw [DeviceTargets.sameStatus_comm]
    show DeviceTargets.sameStatus (observe row.document expected o v) d = true
    rw [sameStatus_observe, DeviceTargets.sameStatus_comm]
    exact hsame
  · rw [← hrec]
    exact recorded_observe o v hcurrent

/-- A request about another device, a credential or a profile. -/
theorem other_shows {fw : Framework} {request : Request} {d : Device} {db db' : Database} {result : Option Device}
    {a : Recorded} (hshows : Shows db d a) (hid : deviceId request ≠ some d.id)
    (h : request.apply fw db = .ok (result, db')) : Shows db' d a := by
  obtain ⟨row, hrow, hrid, hrest⟩ := hshows
  exact ⟨row, (apply_frame h row (by rw [hrid]; exact hid)).mpr hrow, hrid, hrest⟩

/-- The step: a request that keeps the target puts the observation it carries. -/
theorem apply_shows {fw : Framework} {request : Request} {d : Device} {db db' : Database} {result : Option Device}
    {a : Recorded} (hids : ∀ row ∈ db.devices.rows, row.id = row.document.id) (hshows : Shows db d a)
    (hkeeps : KeepsTarget fw d request) (h : request.apply fw db = .ok (result, db')) :
    Shows db' d (Register.puts checked a ((observations d.id request).map written)) := by
  by_cases hid : deviceId request = some d.id
  · cases request with
    | saveDevice device =>
      exact save_shows hids hshows hkeeps (Option.some.inj hid) (returning_ok_iff.mp h).2
    | applyObservation expected o v =>
      have he : expected.id = d.id := Option.some.inj hid
      have hobs : observations d.id (.applyObservation expected o v) = [o] := if_pos he
      rw [hobs]
      exact observation_shows hids hshows (hkeeps he) he h
    | deleteDevice id => exact absurd (Option.some.inj hid) hkeeps
    | _ => cases hid
  · have hnone : observations d.id request = [] := by
      cases request with
      | applyObservation expected o v =>
        refine if_neg ?_
        intro he
        exact hid (congrArg some he)
      | _ => rfl
    rw [hnone]
    exact other_shows hshows hid h

/-! ## Runs -/

/-- The calls on a repository that is in the state `s`. -/
def continued (fw : Framework) (s : Store) : Machine Store Call where
  init t := t = s
  step := (repository fw).step

/-- The observations of the device whose call returned, in the order they arrived. -/
def arrived (fw : Framework) (id : Guid) (log : List (Store × Call)) : List StatusObservation :=
  log.flatMap fun p =>
    match (run fw p.1 p.2).1 with
    | .ok _ => observations id p.2.request
    | .error _ => []

/-- Every call of the run keeps the target of `d`. -/
def KeepTarget (fw : Framework) (d : Device) (log : List (Store × Call)) : Prop :=
  Machine.Throughout (fun (_ : Store) (c : Call) => KeepsTarget fw d c.request) log

/-- The availability stored for a device. -/
def availability (id : Guid) (s : Store) : Option Recorded := (s.db.devices.find id).map fun row => recorded row.document

/-- The instants of the device's last check, before each call of a run and after it. -/
def checks (id : Guid) (log : List (Store × Call)) (t : Store) : List (WithBot Int) :=
  (log.map Prod.fst ++ [t]).map fun s => ((availability id s).map checked).getD ⊥

theorem arrived_snoc (fw : Framework) (id : Guid) (log : List (Store × Call)) (p : Store × Call) :
    arrived fw id (log ++ [p]) = arrived fw id log ++ arrived fw id [p] := List.flatMap_append

theorem checks_snoc (id : Guid) (log : List (Store × Call)) (s t : Store) (c : Call) :
    checks id (log ++ [(s, c)]) t = checks id log s ++ checks id [] t := by
  simp [checks]

theorem continued_reach {fw : Framework} {s t : Store} {log : List (Store × Call)} (hs : (repository fw).Reach s)
    (h : (continued fw s).Runs log t) : (repository fw).Reach t := by
  refine Machine.Reach.inv ?_ ?_ ⟨log, h⟩
  · intro u hu
    cases hu; exact hs
  · intro u c u' hu hc
    exact Machine.reach_step c hu hc

theorem Shows.stored {s : Store} {d : Device} {a : Recorded} (h : Shows s.db d a) : availability d.id s = some a := by
  obtain ⟨row, hrow, hrid, -, hrec⟩ := h
  unfold availability
  rw [← hrid, find_stored hrow, ← hrec]
  rfl

theorem run_shows {fw : Framework} {s : Store} {c : Call} {d : Device} {a : Recorded} (hs : (repository fw).Reach s)
    (hshows : Shows s.db d a) (hkeeps : KeepsTarget fw d c.request) :
    Shows (run fw s c).2.db d (Register.puts checked a ((arrived fw d.id [(s, c)]).map written)) := by
  rcases run_cases fw s c with ⟨_, db, hok, happly, hs'⟩ | ⟨e, herr, hs', -⟩
  · have hlast : arrived fw d.id [(s, c)] = observations d.id c.request := by simp [arrived, hok]
    rw [hs', hlast]
    exact apply_shows (reach_identified hs).ids hshows hkeeps happly
  · have hlast : arrived fw d.id [(s, c)] = [] := by simp [arrived, herr]
    rw [hs', hlast]
    exact hshows

/-- The run: the availability is what the register holds after what arrived, and the time
    of the last check has never gone back. -/
theorem runs_recorded {fw : Framework} {s t : Store} {row : DeviceRow} {log : List (Store × Call)}
    (hs : (repository fw).Reach s) (hrow : row ∈ s.db.devices.rows) (h : (continued fw s).Runs log t)
    (hkeep : KeepTarget fw row.document log) :
    Shows t.db row.document
      (Register.puts checked (recorded row.document) ((arrived fw row.document.id log).map written)) ∧
    (checks row.document.id log t).Pairwise (· ≤ ·) := by
  refine Machine.Runs.log_inv (I := fun log t => KeepTarget fw row.document log →
    Shows t.db row.document
      (Register.puts checked (recorded row.document) ((arrived fw row.document.id log).map written)) ∧
    (checks row.document.id log t).Pairwise (· ≤ ·)) ?_ ?_ h hkeep
  · intro u hu _
    cases hu
    exact ⟨⟨row, hrow, (reach_identified hs).ids row hrow, DeviceTargets.sameStatus_self _, rfl⟩,
      List.pairwise_singleton _ _⟩
  · intro log u c u' hr ih hc hkeep
    obtain ⟨hlog, hkeeps⟩ := (Machine.throughout_snoc _ _ _ _).mp hkeep
    obtain ⟨hshows, hmono⟩ := ih hlog
    cases hc
    have hnext := run_shows (continued_reach hs hr) hshows hkeeps
    refine ⟨?_, ?_⟩
    · rw [arrived_snoc, List.map_append, Register.puts, List.foldl_append]
      exact hnext
    · -- every time so far is at most the one before the call, and that at most the next
      rw [checks_snoc]
      refine List.pairwise_append.mpr ⟨hmono, List.pairwise_singleton _ _, ?_⟩
      intro x hx y hy
      have hlast : ((availability row.document.id u).map checked).getD ⊥ ≤ y := by
        rw [checks, List.map_nil, List.nil_append, List.map_singleton, List.mem_singleton] at hy
        rw [hy, hnext.stored, hshows.stored]
        exact Register.time_le_puts checked _ _
      unfold checks at hx hmono
      rw [List.map_append, List.map_singleton] at hx hmono
      rcases List.mem_append.mp hx with hx | hx
      · exact ((List.pairwise_append.mp hmono).2.2 x hx _ (List.mem_singleton.mpr rfl)).trans hlast
      · rw [List.mem_singleton.mp hx]; exact hlast

/-! ## The last check wins -/

/-- `a` is the availability after observations that arrived over `initial`: what the latest
    of them observed or, when the initial check is later than all, the initial one. -/
def LastWins (initial : Recorded) (arrived : List StatusObservation) (a : Recorded) : Prop :=
  (a = initial ∧ ∀ o ∈ arrived, laterThan initial.2 (some o.checkedAt) = true) ∨
    ∃ o ∈ arrived, a = (o.state, some o.checkedAt) ∧ laterThan initial.2 (some o.checkedAt) = false ∧
      ∀ o' ∈ arrived, o'.checkedAt.utcTicks ≤ o.checkedAt.utcTicks

theorem puts_lastWins (initial : Recorded) (os : List StatusObservation) :
    LastWins initial os (Register.puts checked initial (os.map written)) := by
  rcases Register.puts_cases checked initial (os.map written) with ⟨he, hlt⟩ | ⟨hm, hmax, hge⟩
  · refine Or.inl ⟨he, ?_⟩
    intro o ho
    exact (laterThan_iff _ _).mpr (hlt _ (List.mem_map_of_mem ho))
  · obtain ⟨o, ho, he⟩ := List.mem_map.mp hm
    rw [← he] at hmax hge ⊢
    refine Or.inr ⟨o, ho, rfl, ?_, ?_⟩
    · rw [Bool.eq_false_iff]
      intro hlater
      exact absurd ((laterThan_iff _ _).mp hlater) (not_lt.mpr hge)
    · intro o' ho'
      exact WithBot.coe_le_coe.mp (hmax _ (List.mem_map_of_mem ho'))

/-- Two runs from one state whose calls keep the target of a stored device and bring the
    same observations of it, of distinct times, in any two orders: both end with the same
    availability, that of the latest check, and the time of the check never goes back. -/
theorem last_check_wins (fw : Framework) (s : Store) (row : DeviceRow) (log₁ log₂ : List (Store × Call)) (t₁ t₂ : Store)
    (hs : (repository fw).Reach s) (hrow : row ∈ s.db.devices.rows) (h₁ : (continued fw s).Runs log₁ t₁)
    (h₂ : (continued fw s).Runs log₂ t₂) (hkeep₁ : KeepTarget fw row.document log₁)
    (hkeep₂ : KeepTarget fw row.document log₂) (hperm : (arrived fw row.id log₁).Perm (arrived fw row.id log₂))
    (hdistinct : ((arrived fw row.id log₁).map fun o => o.checkedAt.utcTicks).Nodup) :
    ∃ a, availability row.id t₁ = some a ∧ availability row.id t₂ = some a ∧
      LastWins (recorded row.document) (arrived fw row.id log₁) a ∧
      (checks row.id log₁ t₁).Pairwise (· ≤ ·) ∧ (checks row.id log₂ t₂).Pairwise (· ≤ ·) := by
  have hid : row.id = row.document.id := (reach_identified hs).ids row hrow
  rw [hid] at hperm hdistinct ⊢
  obtain ⟨hshows₁, hmono₁⟩ := runs_recorded hs hrow h₁ hkeep₁
  obtain ⟨hshows₂, hmono₂⟩ := runs_recorded hs hrow h₂ hkeep₂
  have hwritten : (((arrived fw row.document.id log₁).map written).map checked).Nodup := by
    rw [List.map_map]
    have hcoe := hdistinct.map (f := fun n : Int => (n : WithBot Int)) WithBot.coe_injective
    rw [List.map_map] at hcoe
    exact hcoe
  refine ⟨_, hshows₁.stored, ?_, puts_lastWins _ _, hmono₁, hmono₂⟩
  rw [Register.puts_perm (hperm.map written) hwritten]
  exact hshows₂.stored

def wentOffline : StatusObservation := { state := .offline, checkedAt := ⟨2, 60⟩ }

theorem nas_last_check_wins :
    let online := quiet (.applyObservation nasStored seenOnline true)
    let offline := quiet (.applyObservation nasStored wentOffline false)
    let rename := quiet (.saveDevice renamed)
    availability 1 (run .ascii (run .ascii oneDevice online).2 offline).2 = some (.offline, some ⟨2, 60⟩) ∧
    availability 1 (run .ascii (run .ascii (run .ascii oneDevice offline).2 rename).2 online).2 =
      some (.offline, some ⟨2, 60⟩) := by
  intro online offline rename
  have hkeep : ∀ c ∈ [online, offline, rename], KeepsTarget .ascii nasStored c.request := by
    intro c hc
    simp only [List.mem_cons, List.not_mem_nil, or_false] at hc
    rcases hc with rfl | rfl | rfl
    · intro _; decide
    · intro _; decide
    · intro _ n hn; cases hn; decide
  have first : (continued .ascii oneDevice).Runs [(oneDevice, online), ((run .ascii oneDevice online).2, offline)] _ :=
    ((Machine.Runs.init rfl).step online rfl).step offline rfl
  have second : (continued .ascii oneDevice).Runs [(oneDevice, offline), ((run .ascii oneDevice offline).2, rename),
      ((run .ascii (run .ascii oneDevice offline).2 rename).2, online)] _ :=
    (((Machine.Runs.init rfl).step offline rfl).step rename rfl).step online rfl
  have hfirst : arrived .ascii (deviceRow nasStored).id
      [(oneDevice, online), ((run .ascii oneDevice online).2, offline)] = [seenOnline, wentOffline] := by decide +kernel
  have hsecond : arrived .ascii (deviceRow nasStored).id [(oneDevice, offline), ((run .ascii oneDevice offline).2, rename),
      ((run .ascii (run .ascii oneDevice offline).2 rename).2, online)] = [wentOffline, seenOnline] := by decide +kernel
  obtain ⟨a, h₁, h₂, -⟩ := last_check_wins .ascii oneDevice (deviceRow nasStored) _ _ _ _ ⟨_, oneDevice_runs⟩ (by decide)
    first second (by intro p hp; exact hkeep p.2 (by simp at hp; rcases hp with rfl | rfl <;> simp))
    (by intro p hp; exact hkeep p.2 (by simp at hp; rcases hp with rfl | rfl | rfl <;> simp))
    (by rw [hfirst, hsecond]; exact List.Perm.swap wentOffline seenOnline []) (by rw [hfirst]; decide)
  cases h₁
  exact ⟨rfl, h₂⟩

end MythLab.Storage.Availability
