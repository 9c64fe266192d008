/-
  MythLab.App.DiscoveryScans — the discovery page over runs of scans.

  `Reports` is read off the events of a run: which scan reports, and the updates taken
  from the scan that last cleared the list. A step leaves the records of the rows alone
  (`Quiet` if it also keeps the state of the commands, `Moves` if a command goes on or
  ends), clears them and begins to report, or is an update.

  Proved (`rows_show_the_scan`), of every run in which the devices reported have the text
  form of their addresses: the rows show the scan's records (`Shows`) in every state
  reached, `Completed` never goes back while a scan reports, and an update of a scan that
  does not report any more changes nothing.
-/
import MythLab.App.DiscoveryRows

namespace MythLab.App.DiscoveryViewModel

open Lib Lib.Eff Dotnet Devices Discovery Settings

variable {fw : Framework} {grouped : Nat → Str} {ids : Nat → Guid} {s t : State} {e : Event}

/-! ## What the events say of the scans -/

structure Reports where
  /-- The scans started so far. -/
  scans : Nat := 0
  /-- The last one was cancelled. -/
  cancelled : Bool := false
  /-- The scan whose updates are taken: it reports, is not cancelled and has not returned. -/
  current : Option Nat := none
  /-- The updates taken from the scan that last cleared the list, oldest first. -/
  updates : List DiscoveryUpdate := []

def Reports.records (r : Reports) : List DiscoveredDevice := r.updates.filterMap (·.device)

/-- The greatest count in the updates. -/
def Reports.counted (r : Reports) : Int := r.updates.foldl (fun n u => max n u.completed) 0

/-- After the step a scan reports that did not before. -/
def begins (fw : Framework) (grouped : Nat → Str) (s : State) (e : Event) : Bool :=
  decide (s.phase ≠ .reporting) && (step fw grouped s e).any fun t => decide (t.phase = .reporting)

def Reports.next (r : Reports) (begun : Bool) (e : Event) : Reports :=
  if begun then { r with current := if r.cancelled then none else some r.scans, updates := [] }
  else
    match e with
    | .scan => { r with scans := r.scans + 1, cancelled := false }
    | .cancel => { r with cancelled := true, current := none }
    | .scanReturns _ => { r with current := none }
    | .deliver _ generation update =>
      if r.current = some generation then { r with updates := r.updates ++ [update] } else r
    | _ => r

def reports (fw : Framework) (grouped : Nat → Str) (log : List (State × Event)) : Reports :=
  log.foldl (fun r p => r.next (begins fw grouped p.1 p.2) p.2) {}

/-- The devices that an event reports have the text form of their addresses. -/
def Canonical (_ : State) : Event → Prop
  | .deliver _ _ update => ∀ d, update.device = some d → ∃ ip, d.address = Ipv4Subnet.format ip
  | _ => True

theorem reports_snoc (log : List (State × Event)) (s : State) (e : Event) :
    reports fw grouped (log ++ [(s, e)]) = (reports fw grouped log).next (begins fw grouped s e) e := by
  unfold reports
  rw [List.foldl_append]
  rfl

theorem begins_eq_false (hs : step fw grouped s e = some t) (h : t.phase = .reporting → s.phase = .reporting) :
    begins fw grouped s e = false := by
  unfold begins
  rw [hs]
  by_cases ht : t.phase = .reporting
  · simp [h ht]
  · simp [ht]

theorem begins_eq_true (hs : step fw grouped s e = some t) (hbefore : s.phase ≠ .reporting) (hafter : t.phase = .reporting) :
    begins fw grouped s e = true := by
  unfold begins
  rw [hs]
  simp [hbefore, hafter]

/-! ## Steps that leave the records alone -/

/-- Same records, same state of the commands. -/
structure Quiet (s t : State) : Prop extends SameRows s t where
  control : t.control = s.control

theorem Quiet.refl (s : State) : Quiet s s := ⟨SameRows.refl s, rfl⟩

theorem Quiet.trans {u : State} (h : Quiet s t) (h' : Quiet t u) : Quiet s u :=
  ⟨⟨h'.results.trans h.results, h'.byAddress.trans h.byAddress, h'.device.trans h.device⟩, h'.control.trans h.control⟩

theorem Quiet.modify {f : State → State} (hf : ∀ s, Quiet s (f s)) (s₀ : State) :
    Keeps (Quiet s₀) (modify f : Eff State Exn Unit) := Keeps.modify fun s h => h.trans (hf s)

theorem keeps_matchRow (s₀ : State) (i : Nat) : Keeps (Quiet s₀) (matchRow fw ids i) := by
  refine Keeps.bind Keeps.get ?_
  intro s
  rcases s.row i with _ | r
  · exact Keeps.pure ()
  · refine Keeps.bind (Keeps.lift _) ?_
    intro found
    refine Quiet.modify ?_ s₀
    intro s
    refine ⟨⟨rfl, rfl, ?_⟩, rfl⟩
    -- a label is no part of the record
    funext j
    show ((s.rows.modify i (·.matched found))[j]?).map Row.device = (s.rows[j]?).map Row.device
    rw [List.getElem?_modify]
    cases s.rows[j]? with
    | none => rfl
    | some r =>
      have hdevice : (r.matched found).device = r.device := by
        unfold Row.matched
        split
        · rfl
        · rfl
      by_cases hij : i = j
      · simp [hij, hdevice]
      · simp [hij]

theorem keeps_refreshManaged (s₀ : State) (devices : List Device) : Keeps (Quiet s₀) (refreshManaged fw ids devices) := by
  refine Keeps.bind (Quiet.modify (fun _ => ?_) s₀) ?_
  · exact ⟨⟨rfl, rfl, rfl⟩, rfl⟩
  intro _
  refine Keeps.bind Keeps.get ?_
  intro s
  induction s.results with
  | nil => exact Keeps.pure _
  | cons i results ih => exact Keeps.bind (keeps_matchRow s₀ i) fun _ => ih

theorem keeps_setSelectedInterface (s₀ : State) (value : Option LocalNetworkInterface) :
    Keeps (Quiet s₀) (setSelectedInterface grouped value) := by
  refine Keeps.bind Keeps.get ?_
  intro s
  refine Keeps.provided (Keeps.bind (Quiet.modify (fun _ => ?_) s₀) ?_)
  · exact ⟨⟨rfl, rfl, rfl⟩, rfl⟩
  intro _
  cases value with
  | none => exact Keeps.pure ()
  | some value =>
    refine Keeps.bind (Keeps.lift _) ?_
    intro subnet
    refine Quiet.modify (fun s => ?_) s₀
    unfold State.prefill
    split
    · exact ⟨⟨rfl, rfl, rfl⟩, rfl⟩
    · exact ⟨⟨rfl, rfl, rfl⟩, rfl⟩

/-! ## Steps of the commands -/

/-- A command waits for something that comes before a scan reports. -/
def Phase.prepares : Phase → Bool
  | .loadingSettings | .listing _ => true
  | _ => false

/-- The command is `ScanAsync`. -/
def Phase.scans : Phase → Bool
  | .loadingSettings | .listing _ | .reporting => true
  | _ => false

/-- A command goes on, short of a scan's reporting, or ends. -/
structure Moves (s t : State) : Prop extends SameRows s t where
  scanGeneration : t.scanGeneration = s.scanGeneration
  handlers : t.handlers = s.handlers
  cancelled : t.cancelled = s.cancelled
  completed : t.completed = s.completed
  phase : t.phase ≠ .reporting
  scanning : t.isScanning = t.phase.scans
  prepares : t.phase.prepares = true → s.phase.prepares = true

theorem attempt_of_wp {m : Eff State Exn Unit} {failed : Exn → State → State} {P : State → Prop}
    (h : m.wp (fun r u => match r with | .ok _ => P u | .error e => P (failed e u)) s) : P (s.attempt m failed) := by
  unfold State.attempt
  unfold Eff.wp at h
  rcases hm : m s with ⟨_ | _, u⟩
  · rw [hm] at h
    exact h
  · rw [hm] at h
    exact h

section Commands

variable {u : State}

theorem Quiet.endScan (h : Quiet s u) (message : Str) : Moves s (u.endScan message) := by
  refine ⟨⟨h.results, h.byAddress, h.device⟩, ?_, ?_, ?_, ?_, ?_, rfl, ?_⟩
  · exact congrArg Control.scanGeneration h.control
  · exact congrArg Control.handlers h.control
  · exact congrArg Control.cancelled h.control
  · exact congrArg Control.completed h.control
  · exact fun he => (by cases he)
  · exact fun he => (by cases he)

/-- A command other than a scan goes on to a phase of its own. -/
theorem Quiet.goes (h : Quiet s u) (hscanning : s.isScanning = false) {v : State} (hrows : SameRows u v)
    (hcontrol : v.control = { u.control with phase := v.phase }) (hphase : v.phase.scans = false) : Moves s v := by
  have hphases : v.phase ≠ .reporting ∧ v.phase.prepares = false := by
    revert hphase
    cases v.phase <;> simp [Phase.scans, Phase.prepares]
  have hquiet : v.control = { s.control with phase := v.phase } := by rw [hcontrol, h.control]
  refine ⟨⟨hrows.results.trans h.results, hrows.byAddress.trans h.byAddress, hrows.device.trans h.device⟩,
    congrArg Control.scanGeneration hquiet, congrArg Control.handlers hquiet, congrArg Control.cancelled hquiet,
    congrArg Control.completed hquiet, hphases.1, ?_, ?_⟩
  · rw [hphase]
    exact (congrArg Control.isScanning hquiet).trans hscanning
  · intro hprepares
    rw [hphases.2] at hprepares
    cases hprepares

theorem moves_prepareScan (settings : Except Exn AppSettings) (hphase : s.phase = .loadingSettings)
    (hscanning : s.isScanning = s.phase.scans) : Moves s (s.attempt (prepareScan settings) scanFailed) := by
  refine attempt_of_wp ?_
  unfold prepareScan
  refine wp_lift_step (fun e _ => (Quiet.refl s).endScan _) ?_
  intro settings _
  rw [wp_get_bind]
  cases s.selectedInterface with
  | none => exact (Quiet.refl s).endScan _
  | some i =>
    refine wp_lift_step (fun e _ => (Quiet.refl s).endScan _) ?_
    intro _ _
    refine ⟨⟨rfl, rfl, rfl⟩, rfl, rfl, rfl, rfl, fun he => (by cases he), ?_, ?_⟩
    · show s.isScanning = true
      rw [hscanning, hphase]
      rfl
    · intro _
      rw [hphase]
      rfl

/-- What a continuation does once it has read the inventory. -/
theorem wp_refreshed {m : Eff State Exn Unit} {Q : Except Exn Unit → State → Prop} (devices : Except Exn (List Device))
    (hthrows : ∀ e u, Quiet s u → Q (.error e) u) (hreturns : ∀ u, Quiet s u → m.wp Q u) :
    (lift devices >>= fun devices => refreshManaged fw ids devices >>= fun _ => m).wp Q s := by
  refine wp_lift_step (fun e _ => hthrows e s (Quiet.refl s)) ?_
  intro devices _
  rw [wp_bind]
  refine wp_mono (keeps_refreshManaged s devices s (Quiet.refl s)) ?_
  intro r u hu
  cases r with
  | error e => exact hthrows e u hu
  | ok _ => exact hreturns u hu

theorem beginReporting_cases (devices : Except Exn (List Device)) :
    Moves s (s.attempt (beginReporting fw ids devices) scanFailed) ∨
      ∃ u, Quiet s u ∧ s.attempt (beginReporting fw ids devices) scanFailed = u.clear := by
  refine attempt_of_wp (P := fun t => Moves s t ∨ ∃ u, Quiet s u ∧ t = u.clear) (wp_refreshed devices ?_ ?_)
  · exact fun e u hu => Or.inl (hu.endScan _)
  · exact fun u hu => Or.inr ⟨u, hu, rfl⟩

theorem moves_endRefresh (devices : Except Exn (List Device)) (hscanning : s.isScanning = false) :
    Moves s (s.attempt (endRefresh fw ids devices) interfacesFailed) := by
  refine attempt_of_wp (wp_refreshed devices ?_ ?_)
  · exact fun e u hu => hu.goes hscanning ⟨rfl, rfl, rfl⟩ rfl rfl
  · exact fun u hu => hu.goes hscanning ⟨rfl, rfl, rfl⟩ rfl rfl

theorem moves_endAdd (devices : Except Exn (List Device)) (hscanning : s.isScanning = false) :
    Moves s (s.attempt (endAdd fw ids devices) addFailed) := by
  refine attempt_of_wp (wp_refreshed devices ?_ ?_)
  · exact fun e u hu => hu.goes hscanning ⟨rfl, rfl, rfl⟩ rfl rfl
  · exact fun u hu => hu.goes hscanning ⟨rfl, rfl, rfl⟩ rfl rfl

theorem moves_recheck (i : Nat) (devices : Except Exn (List Device)) (hscanning : s.isScanning = false) :
    Moves s (s.attempt (recheck fw ids i devices) addFailed) := by
  refine attempt_of_wp (wp_refreshed devices ?_ ?_)
  · exact fun e u hu => hu.goes hscanning ⟨rfl, rfl, rfl⟩ rfl rfl
  · intro u hu
    rw [wp_get_bind]
    split
    · exact hu.goes hscanning ⟨rfl, rfl, rfl⟩ rfl rfl
    · exact hu.goes hscanning ⟨rfl, rfl, rfl⟩ rfl rfl

theorem moves_takeInterfaces (interfaces : Except Exn (List LocalNetworkInterface)) (hscanning : s.isScanning = false) :
    Moves s (s.attempt (takeInterfaces grouped interfaces) interfacesFailed) := by
  refine attempt_of_wp ?_
  have hfails : ∀ e u, Quiet s u → Moves s (interfacesFailed e u) :=
    fun e u hu => hu.goes hscanning ⟨rfl, rfl, rfl⟩ rfl rfl
  refine wp_lift_step (fun e _ => hfails e s (Quiet.refl s)) ?_
  intro interfaces _
  rw [wp_get_bind, wp_bind]
  refine wp_mono (keeps_setSelectedInterface s _ s (Quiet.refl s)) ?_
  intro r u hu
  cases r with
  | error e => exact hfails e u hu
  | ok _ =>
    show ((provided (interfaces = []) (modify _) () : Eff State Exn Unit) >>= fun _ => modify _).wp _ u
    rw [wp_bind]
    have hsaid : Keeps (Quiet s) (provided (interfaces = []) (modify fun s =>
        { s with message := str "No active IPv4 interface was found. Connect to your LAN and refresh." }) () :
          Eff State Exn Unit) := by
      refine Keeps.provided (Quiet.modify (fun _ => ?_) s)
      exact ⟨⟨rfl, rfl, rfl⟩, rfl⟩
    refine wp_mono (hsaid u hu) ?_
    intro r v hv
    cases r with
    | error e => exact hfails e v hv
    | ok _ => exact hv.goes hscanning ⟨rfl, rfl, rfl⟩ rfl rfl

end Commands

/-! ## The invariant -/

/-- What a state keeps of the scans of its run. -/
structure Inv (r : Reports) (s : State) : Prop where
  shows : ∃ devices, Shows s devices r.records
  scans : r.scans = s.scanGeneration
  stopped : r.cancelled = true ↔ s.scanGeneration ∈ s.cancelled
  current : ∀ g, r.current = some g ↔ s.phase = .reporting ∧ g = s.scanGeneration ∧ r.cancelled = false
  scanning : s.isScanning = s.phase.scans
  handlers : ∀ g ∈ s.handlers, g ≤ s.scanGeneration
  /-- The progress of a scan has no handler before the list is cleared. -/
  fresh : s.phase.prepares = true → s.scanGeneration ∉ s.handlers
  cancelled : ∀ g ∈ s.cancelled, g ≤ s.scanGeneration
  completed : s.phase = .reporting → s.completed = r.counted

section Invariant

variable {r : Reports}

theorem inv_init : Inv {} ({} : State) := by
  refine ⟨⟨[], Shows.nil rfl rfl⟩, rfl, ?_, ?_, rfl, ?_, ?_, ?_, ?_⟩
  · exact ⟨fun h => (by cases h), fun h => (by cases h)⟩
  · exact fun g => ⟨fun h => (by cases h), fun h => (by cases h.1)⟩
  · exact fun g hg => (by cases hg)
  · exact fun h => (by cases h)
  · exact fun g hg => (by cases hg)
  · exact fun h => (by cases h)

theorem Inv.no_current (h : Inv r s) (hphase : s.phase ≠ .reporting) : r.current = none := by
  rcases hr : r.current with _ | g
  · rfl
  · exact absurd ((h.current g).mp hr).1 hphase

/-- Other updates are taken of the same scans. -/
theorem Inv.of_control {updates : List DiscoveryUpdate} (h : Inv r s)
    (hshows : ∃ devices, Shows t devices (updates.filterMap (·.device)))
    (hcontrol : t.control = { s.control with completed := t.completed })
    (hcompleted : s.phase = .reporting → t.completed = ({ r with updates := updates } : Reports).counted) :
    Inv { r with updates := updates } t := by
  have hphase : t.phase = s.phase := congrArg Control.phase hcontrol
  have hscanning : t.isScanning = s.isScanning := congrArg Control.isScanning hcontrol
  have hgeneration : t.scanGeneration = s.scanGeneration := congrArg Control.scanGeneration hcontrol
  have hhandlers : t.handlers = s.handlers := congrArg Control.handlers hcontrol
  have hcancelled : t.cancelled = s.cancelled := congrArg Control.cancelled hcontrol
  refine ⟨hshows, ?_, ?_, ?_, ?_, ?_, ?_, ?_, ?_⟩
  · rw [hgeneration]
    exact h.scans
  · rw [hgeneration, hcancelled]
    exact h.stopped
  · rw [hphase, hgeneration]
    exact h.current
  · rw [hphase, hscanning]
    exact h.scanning
  · rw [hgeneration, hhandlers]
    exact h.handlers
  · rw [hphase, hgeneration, hhandlers]
    exact h.fresh
  · rw [hgeneration, hcancelled]
    exact h.cancelled
  · rw [hphase]
    exact hcompleted

theorem Inv.quiet (h : Inv r s) (hq : Quiet s t) : Inv r t := by
  obtain ⟨devices, hshows⟩ := h.shows
  have hcompleted : t.completed = s.completed := congrArg Control.completed hq.control
  refine h.of_control ⟨devices, hshows.congr hq.toSameRows⟩ ?_ ?_
  · rw [hcompleted]
    exact hq.control
  · rw [hcompleted]
    exact h.completed

/-- A command goes on or ends; no scan reports now. -/
theorem Inv.moves (h : Inv r s) (hm : Moves s t) : Inv { r with current := none } t := by
  obtain ⟨devices, hshows⟩ := h.shows
  refine ⟨⟨devices, hshows.congr hm.toSameRows⟩, ?_, ?_, ?_, hm.scanning, ?_, ?_, ?_, fun he => absurd he hm.phase⟩
  · rw [hm.scanGeneration]
    exact h.scans
  · rw [hm.scanGeneration, hm.cancelled]
    exact h.stopped
  · exact fun g => ⟨fun he => (by cases he), fun he => absurd he.1 hm.phase⟩
  · rw [hm.scanGeneration, hm.handlers]
    exact h.handlers
  · rw [hm.scanGeneration, hm.handlers]
    exact fun he => h.fresh (hm.prepares he)
  · rw [hm.scanGeneration, hm.cancelled]
    exact h.cancelled

theorem Inv.moves' (h : Inv r s) (hphase : s.phase ≠ .reporting) (hm : Moves s t) : Inv r t := by
  have hmoved := h.moves hm
  have hnone : { r with current := none } = r := by rw [← h.no_current hphase]
  rwa [hnone] at hmoved

theorem Inv.scan (h : Inv r s) :
    Inv { r with scans := r.scans + 1, cancelled := false, current := none }
      { s with isScanning := true, scanGeneration := s.scanGeneration + 1, phase := .loadingSettings } := by
  obtain ⟨devices, hshows⟩ := h.shows
  have hafter : s.scanGeneration + 1 ∉ s.cancelled := fun hin => absurd (h.cancelled _ hin) (by omega)
  refine ⟨⟨devices, hshows.congr ⟨rfl, rfl, rfl⟩⟩, congrArg (· + 1) h.scans, ?_, ?_, rfl, ?_, ?_, ?_, ?_⟩
  · exact ⟨fun he => (by cases he), fun he => absurd he hafter⟩
  · exact fun g => ⟨fun he => (by cases he), fun he => (by cases he.1)⟩
  · exact fun g hg => Nat.le_succ_of_le (h.handlers g hg)
  · exact fun _ hin => absurd (h.handlers _ hin) (Nat.not_succ_le_self _)
  · exact fun g hg => Nat.le_succ_of_le (h.cancelled g hg)
  · exact fun he => (by cases he)

theorem Inv.cancel (h : Inv r s) : Inv { r with cancelled := true, current := none }
    { s with cancelled := s.cancelled ++ [s.scanGeneration] } := by
  obtain ⟨devices, hshows⟩ := h.shows
  refine ⟨⟨devices, hshows.congr ⟨rfl, rfl, rfl⟩⟩, h.scans, ?_, ?_, h.scanning, h.handlers, h.fresh, ?_, h.completed⟩
  · exact ⟨fun _ => List.mem_append_right _ (List.mem_singleton_self _), fun _ => rfl⟩
  · exact fun g => ⟨fun he => (by cases he), fun he => (by cases he.2.2)⟩
  · intro g hg
    rcases List.mem_append.mp hg with hg | hg
    · exact h.cancelled g hg
    · exact Nat.le_of_eq (List.mem_singleton.mp hg)

/-- The list is cleared and the scan reports. -/
theorem Inv.clear {request : DiscoveryRequest} (h : Inv r s) (hphase : s.phase = .listing request) :
    Inv { r with current := if r.cancelled then none else some r.scans, updates := [] } s.clear := by
  refine ⟨⟨[], Shows.nil rfl rfl⟩, h.scans, h.stopped, ?_, ?_, ?_, fun he => (by cases he), h.cancelled, fun _ => rfl⟩
  · intro g
    show (if r.cancelled = true then none else some r.scans) = some g ↔
      Phase.reporting = .reporting ∧ g = s.scanGeneration ∧ r.cancelled = false
    cases r.cancelled with
    | true => exact ⟨fun he => (by cases he), fun he => (by cases he.2.2)⟩
    | false =>
      rw [if_neg Bool.false_ne_true, h.scans, Option.some.injEq]
      exact ⟨fun he => ⟨rfl, he.symm, rfl⟩, fun he => he.2.1.symm⟩
  · show s.isScanning = true
    rw [h.scanning, hphase]
    rfl
  · intro g hg
    rcases List.mem_append.mp hg with hg | hg
    · exact h.handlers g hg
    · exact Nat.le_of_eq (List.mem_singleton.mp hg)

/-! ## Updates -/

/-- The handler takes an update exactly when its scan is the one that reports. -/
theorem Inv.taken (h : Inv r s) {g : Nat} (hg : g ∈ s.handlers) : s.ignores g = false ↔ r.current = some g := by
  unfold State.ignores
  rw [h.current, Bool.or_eq_false_iff, Bool.or_eq_false_iff, Bool.not_eq_false', bne_eq_false_iff_eq]
  constructor
  · rintro ⟨⟨hscanning, rfl⟩, hcancelled⟩
    have hphase : s.phase = .reporting := by
      have hfresh := h.fresh
      rw [h.scanning] at hscanning
      cases hp : s.phase <;> simp_all [Phase.scans, Phase.prepares]
    refine ⟨hphase, rfl, (Bool.not_eq_true _).mp fun hstopped => ?_⟩
    rw [List.contains_iff_mem.mpr (h.stopped.mp hstopped)] at hcancelled
    cases hcancelled
  · rintro ⟨hphase, rfl, hgoes⟩
    refine ⟨⟨?_, rfl⟩, (Bool.not_eq_true _).mp fun hin => ?_⟩
    · rw [h.scanning, hphase]
      rfl
    · rw [h.stopped.mpr (List.contains_iff_mem.mp hin)] at hgoes
      cases hgoes

theorem progressHandler_ignores {g : Nat} (h : s.ignores g = true) (update : DiscoveryUpdate) :
    (progressHandler fw ids g update s).2 = s := by
  show (provided (s.ignores g = false) _ () s).2 = s
  unfold provided
  rw [if_neg (by rw [h]; exact Bool.noConfusion)]
  rfl

theorem wp_progressHandler {devices records : List DiscoveredDevice} {g : Nat} {update : DiscoveryUpdate}
    (hshows : Shows s devices records) (hcanonical : Canonical s (.deliver ids g update)) (htaken : s.ignores g = false) :
    (progressHandler fw ids g update).wp (fun _ t => (∃ devices', Shows t devices' (records ++ update.device.toList)) ∧
      t.control = { s.control with completed := max s.completed update.completed }) s := by
  unfold progressHandler provided
  rw [wp_get_bind, if_pos htaken, wp_modify_bind]
  have hcounted : Shows { s with
      completed := max s.completed update.completed
      total := update.total
      diagnostic := update.diagnostic.getD s.diagnostic } devices records := hshows.congr ⟨rfl, rfl, rfl⟩
  cases hdevice : update.device with
  | none =>
    rw [Option.toList_none, List.append_nil]
    exact ⟨⟨devices, hcounted⟩, rfl⟩
  | some found =>
    obtain ⟨ip, hip⟩ := hcanonical found hdevice
    show (showRecord found >>= fun i => matchRow fw ids i).wp _ _
    rw [wp_bind]
    refine wp_mono (wp_showRecord hcounted hip) ?_
    rintro r t ⟨⟨devices', ht⟩, hcontrol⟩
    cases r with
    | error e => exact ⟨⟨devices', ht⟩, hcontrol⟩
    | ok i =>
      refine wp_mono (keeps_matchRow t i t (Quiet.refl t)) ?_
      intro _ v hv
      exact ⟨⟨devices', ht.congr hv.toSameRows⟩, hv.control.trans hcontrol⟩

theorem Inv.deliver {g : Nat} {update : DiscoveryUpdate} (h : Inv r s) (hg : g ∈ s.handlers)
    (hcanonical : Canonical s (.deliver ids g update)) :
    Inv (if r.current = some g then { r with updates := r.updates ++ [update] } else r)
      (progressHandler fw ids g update s).2 ∧ (progressHandler fw ids g update s).2.phase = s.phase ∧
        s.completed ≤ (progressHandler fw ids g update s).2.completed := by
  by_cases hcurrent : r.current = some g
  · obtain ⟨devices, hshows⟩ := h.shows
    obtain ⟨⟨devices', ht⟩, hcontrol⟩ : (∃ devices', Shows (progressHandler fw ids g update s).2 devices' _) ∧ _ :=
      wp_progressHandler hshows hcanonical ((h.taken hg).mpr hcurrent)
    have hcompleted : (progressHandler fw ids g update s).2.completed = max s.completed update.completed :=
      congrArg Control.completed hcontrol
    have hrecords : (r.updates ++ [update]).filterMap (·.device) = r.records ++ update.device.toList := by
      rw [List.filterMap_append]
      cases hdevice : update.device <;> simp [hdevice, Reports.records]
    rw [if_pos hcurrent]
    refine ⟨h.of_control ⟨devices', by rw [hrecords]; exact ht⟩ ?_ ?_, congrArg Control.phase hcontrol, ?_⟩
    · rw [hcompleted]
      exact hcontrol
    · intro hphase
      unfold Reports.counted
      rw [hcompleted, h.completed hphase, List.foldl_append]
      rfl
    · rw [hcompleted]
      exact Int.le_max_left _ _
  · have hignored : s.ignores g = true := (Bool.not_eq_false _).mp fun hnot => hcurrent ((h.taken hg).mp hnot)
    rw [if_neg hcurrent, progressHandler_ignores hignored]
    exact ⟨h, rfl, Int.le_refl _⟩

/-! ## Steps -/

/-- The invariant holds after the step; and `Completed` has not gone back, unless the list was cleared or
    the scan has returned. -/
structure Follows (fw : Framework) (grouped : Nat → Str) (r : Reports) (s : State) (e : Event) (t : State) : Prop where
  inv : Inv (r.next (begins fw grouped s e) e) t
  completed : begins fw grouped s e = false → (∀ summary, e ≠ .scanReturns (.ok summary)) → s.completed ≤ t.completed

theorem Inv.of_quiet (h : Inv r s) (hs : step fw grouped s e = some t) (hq : Quiet s t) (hnext : r.next false e = r) :
    Follows fw grouped r s e t := by
  have hphase : t.phase = s.phase := congrArg Control.phase hq.control
  have hcompleted : t.completed = s.completed := congrArg Control.completed hq.control
  refine ⟨?_, fun _ _ => Int.le_of_eq hcompleted.symm⟩
  rw [begins_eq_false hs fun he => hphase.symm.trans he, hnext]
  exact h.quiet hq

theorem Inv.of_moves (h : Inv r s) (hs : step fw grouped s e = some t) (hphase : s.phase ≠ .reporting) (hm : Moves s t)
    (hnext : r.next false e = r) : Follows fw grouped r s e t := by
  refine ⟨?_, fun _ _ => Int.le_of_eq hm.completed.symm⟩
  rw [begins_eq_false hs fun he => absurd he hm.phase, hnext]
  exact h.moves' hphase hm

/-- Outside of scans a command of the page goes on. -/
theorem Inv.of_goes (h : Inv r s) (hs : step fw grouped s e = some t) (hscanning : s.isScanning = false)
    (hrows : SameRows s t) (hcontrol : t.control = { s.control with phase := t.phase }) (hphase : t.phase.scans = false)
    (hnext : r.next false e = r) : Follows fw grouped r s e t := by
  refine h.of_moves hs ?_ ((Quiet.refl s).goes hscanning hrows hcontrol hphase) hnext
  intro he
  rw [h.scanning, he] at hscanning
  cases hscanning

theorem isScanning_of_canConfigure (h : s.canConfigure = true) : s.isScanning = false := by
  unfold State.canConfigure at h
  rw [Bool.and_eq_true, Bool.not_eq_true'] at h
  exact h.1

theorem Inv.managedReturned {devices : Except Exn (List Device)} (h : Inv r s)
    (hs : managedReturned fw s ids devices = some t) :
    Follows fw grouped r s (.managedReturns ids devices) t := by
  have hstep : step fw grouped s (.managedReturns ids devices) = some t := hs
  have hscanning := h.scanning
  unfold DiscoveryViewModel.managedReturned at hs
  split at hs
  · rename_i request hphase
    have hbefore : s.phase ≠ .reporting := by
      rw [hphase]
      exact fun he => (by cases he)
    obtain rfl := Option.some.inj hs
    have hcases : Moves s (s.attempt (beginReporting fw ids devices) scanFailed) ∨
        ∃ u, Quiet s u ∧ s.attempt (beginReporting fw ids devices) scanFailed = u.clear := beginReporting_cases devices
    rcases hcases with hm | ⟨u, hu, ht⟩
    · exact h.of_moves hstep hbefore hm rfl
    · have hbegins := begins_eq_true hstep hbefore (by rw [ht]; rfl)
      refine ⟨?_, fun hnot => by rw [hbegins] at hnot; cases hnot⟩
      rw [hbegins, ht]
      exact (h.quiet hu).clear ((congrArg Control.phase hu.control).trans hphase)
  · rename_i hphase
    have hidle : s.isScanning = false := by rw [hscanning, hphase]; rfl
    obtain rfl := Option.some.inj hs
    exact h.of_moves hstep (by rw [hphase]; exact fun he => (by cases he)) (moves_endRefresh devices hidle) rfl
  · rename_i i hphase
    have hidle : s.isScanning = false := by rw [hscanning, hphase]; rfl
    obtain rfl := Option.some.inj hs
    exact h.of_moves hstep (by rw [hphase]; exact fun he => (by cases he)) (moves_recheck i devices hidle) rfl
  · rename_i hphase
    have hidle : s.isScanning = false := by rw [hscanning, hphase]; rfl
    obtain rfl := Option.some.inj hs
    exact h.of_moves hstep (by rw [hphase]; exact fun he => (by cases he)) (moves_endAdd devices hidle) rfl
  · cases hs

theorem Inv.step (h : Inv r s) (hcanonical : Canonical s e) (hs : step fw grouped s e = some t) :
    Follows fw grouped r s e t := by
  have hstep := hs
  cases e with
  | scan =>
    obtain ⟨hcan, hs⟩ := Option.ite_none_right_eq_some.mp hs
    cases hs
    have hidle := isScanning_of_canConfigure (Bool.and_eq_true_iff.mp hcan).1
    have hphase : s.phase ≠ .reporting := by
      intro he
      rw [h.scanning, he] at hidle
      cases hidle
    refine ⟨?_, fun _ _ => Int.le_refl _⟩
    rw [begins_eq_false hstep fun he => (by cases he)]
    have hscan := h.scan
    rw [← h.no_current hphase] at hscan
    exact hscan
  | settingsReturn settings =>
    obtain ⟨hphase, hs⟩ := Option.ite_none_right_eq_some.mp hs
    cases hs
    refine h.of_moves hstep ?_ (moves_prepareScan settings hphase h.scanning) rfl
    rw [hphase]
    exact fun he => (by cases he)
  | managedReturns ids devices => exact h.managedReturned hs
  | deliver ids g update =>
    obtain ⟨hg, hs⟩ := Option.ite_none_right_eq_some.mp hs
    cases hs
    obtain ⟨hdelivered, hphase, hcompleted⟩ := h.deliver (List.contains_iff_mem.mp hg) hcanonical
    refine ⟨?_, fun _ _ => hcompleted⟩
    rw [begins_eq_false hstep fun he => hphase.symm.trans he]
    exact hdelivered
  | scanReturns summary =>
    obtain ⟨hphase, hs⟩ := Option.ite_none_right_eq_some.mp hs
    cases hs
    have hafter : (scanReturned s summary).phase = .idle := by cases summary <;> rfl
    have hbegins := begins_eq_false hstep fun he => (by rw [hafter] at he; cases he)
    cases summary with
    | error e =>
      refine ⟨?_, fun _ _ => Int.le_refl _⟩
      rw [hbegins]
      exact h.moves ((Quiet.refl s).endScan _)
    | ok summary =>
      refine ⟨?_, fun _ hnot => absurd rfl (hnot summary)⟩
      rw [hbegins]
      have hmoved := h.moves ((Quiet.refl s).endScan [])
      obtain ⟨devices, hshows⟩ := hmoved.shows
      exact hmoved.of_control ⟨devices, hshows.congr ⟨rfl, rfl, rfl⟩⟩ rfl fun he => (by cases he)
  | cancel =>
    obtain ⟨hscanning, hs⟩ := Option.ite_none_right_eq_some.mp hs
    cases hs
    refine ⟨?_, fun _ _ => Int.le_refl _⟩
    rw [begins_eq_false hstep fun he => he]
    exact h.cancel
  | refreshInterfaces =>
    obtain ⟨hcan, hs⟩ := Option.ite_none_right_eq_some.mp hs
    cases hs
    exact h.of_goes hstep (isScanning_of_canConfigure hcan) ⟨rfl, rfl, rfl⟩ rfl rfl rfl
  | interfacesReturn interfaces =>
    obtain ⟨hphase, hs⟩ := Option.ite_none_right_eq_some.mp hs
    cases hs
    have hidle : s.isScanning = false := by rw [h.scanning, hphase]; rfl
    refine h.of_moves hstep ?_ (moves_takeInterfaces interfaces hidle) rfl
    rw [hphase]
    exact fun he => (by cases he)
  | addSelected =>
    unfold DiscoveryViewModel.step at hs
    dsimp only at hs
    split at hs
    · cases hs
    · obtain ⟨hcan, hs⟩ := Option.ite_none_right_eq_some.mp hs
      cases hs
      have hidle := isScanning_of_canConfigure (Bool.and_eq_true_iff.mp hcan).1
      exact h.of_goes hstep hidle ⟨rfl, rfl, rfl⟩ rfl rfl rfl
  | dialogReturns added =>
    obtain ⟨hphase, hs⟩ := Option.ite_none_right_eq_some.mp hs
    have hidle : s.isScanning = false := by rw [h.scanning, hphase]; rfl
    obtain rfl := Option.some.inj hs
    rcases added with e | added
    · exact h.of_goes hstep hidle ⟨rfl, rfl, rfl⟩ rfl rfl rfl
    · cases added with
      | false => exact h.of_goes hstep hidle ⟨rfl, rfl, rfl⟩ rfl rfl rfl
      | true => exact h.of_goes hstep hidle ⟨rfl, rfl, rfl⟩ rfl rfl rfl
  | refreshManaged ids devices =>
    cases hs
    exact h.of_quiet hstep (keeps_refreshManaged s devices s (Quiet.refl s)) rfl
  | chooseInterface value =>
    obtain ⟨-, hs⟩ := Option.ite_none_left_eq_some.mp hs
    cases hs
    exact h.of_quiet hstep (keeps_setSelectedInterface s value s (Quiet.refl s)) rfl
  | enterRange startAddress endAddress =>
    obtain ⟨-, hs⟩ := Option.ite_none_right_eq_some.mp hs
    cases hs
    exact h.of_quiet hstep ⟨⟨rfl, rfl, rfl⟩, rfl⟩ rfl
  | chooseResult i =>
    cases hs
    exact h.of_quiet hstep ⟨⟨rfl, rfl, rfl⟩, rfl⟩ rfl

end Invariant

/-! ## Runs -/

section Runs

variable {log : List (State × Event)}

theorem inv_of_runs (h : (machine fw grouped).Runs log s) (hcanonical : Machine.Throughout Canonical log) :
    Inv (reports fw grouped log) s := by
  induction h with
  | init hi =>
    obtain rfl := hi
    exact inv_init
  | step e _ hs ih =>
    obtain ⟨hlog, he⟩ := (Machine.throughout_snoc _ _ _ _).mp hcanonical
    rw [reports_snoc]
    exact ((ih hlog).step he hs).inv

theorem mem_of_lastOf {records : List DiscoveredDevice} {address : Str} {d : DiscoveredDevice}
    (h : lastOf records address = some d) : d ∈ records ∧ d.address = address := by
  unfold lastOf at h
  have haddress := List.find?_some h
  exact ⟨List.mem_reverse.mp (List.mem_of_find?_eq_some h), of_decide_eq_true haddress⟩

theorem exists_lastOf {records : List DiscoveredDevice} {d : DiscoveredDevice} (h : d ∈ records) :
    ∃ l, lastOf records d.address = some l := by
  rw [← Option.isSome_iff_exists]
  exact List.find?_isSome.mpr ⟨d, List.mem_reverse.mpr h, decide_eq_true rfl⟩

/-- There is a row for an address exactly when a record of it was reported. -/
theorem Shows.reported {devices records : List DiscoveredDevice} (h : Shows s devices records) (address : Str) :
    (∃ d ∈ devices, d.address = address) ↔ ∃ d ∈ records, d.address = address := by
  constructor
  · rintro ⟨d, hd, haddress⟩
    exact ⟨d, (mem_of_lastOf ((h.last d).mp hd)).1, haddress⟩
  · rintro ⟨d, hd, rfl⟩
    obtain ⟨l, hl⟩ := exists_lastOf hd
    have haddress := (mem_of_lastOf hl).2
    refine ⟨l, (h.last l).mpr ?_, haddress⟩
    rw [haddress]
    exact hl

theorem foldl_max_le {n m : Int} {updates : List DiscoveryUpdate} (hm : m ≤ n) (h : ∀ u ∈ updates, u.completed ≤ n) :
    updates.foldl (fun n u => max n u.completed) m ≤ n := by
  induction updates generalizing m with
  | nil => exact hm
  | cons u updates ih =>
    rw [List.forall_mem_cons] at h
    exact ih (Int.max_le.mpr ⟨hm, h.1⟩) h.2

/-- In every state that a run reaches the list shows what its current scan, the one that last cleared it, has
    reported while its updates were taken: one row for each address reported and no other, each with the
    last record of its address, in strictly increasing order of the numbers of the addresses, and the index
    by address finds exactly these rows. An update of a scan that does not report any more, be it of an
    earlier generation, after its cancellation or after its return, changes nothing. No step of a scan makes
    `Completed` less, its return neither if the service has reported no more than the total it returns. -/
theorem rows_show_the_scan (fw : Framework) (grouped : Nat → Str) {log : List (State × Event)} {s : State}
    (h : (machine fw grouped).Runs log s) (hcanonical : Machine.Throughout Canonical log) :
    Shows s s.shown (reports fw grouped log).records ∧
      (∀ address, (∃ d ∈ s.shown, d.address = address) ↔
        ∃ d ∈ (reports fw grouped log).records, d.address = address) ∧
      (∀ ids generation update t, (reports fw grouped log).current ≠ some generation →
        step fw grouped s (.deliver ids generation update) = some t → t = s) ∧
      ∀ e t, Canonical s e → step fw grouped s e = some t → begins fw grouped s e = false →
        (∀ summary, e = .scanReturns (.ok summary) →
          0 ≤ summary.scanned ∧ ∀ u ∈ (reports fw grouped log).updates, u.completed ≤ summary.scanned) →
            s.completed ≤ t.completed := by
  have hinv := inv_of_runs h hcanonical
  obtain ⟨devices, hshows⟩ := hinv.shows
  rw [← shown_eq hshows.rows] at hshows
  refine ⟨hshows, hshows.reported, ?_, ?_⟩
  · intro ids generation update t hnot hs
    obtain ⟨hg, hs⟩ := Option.ite_none_right_eq_some.mp hs
    cases hs
    have hignored : s.ignores generation = true :=
      (Bool.not_eq_false _).mp fun htaken => hnot ((hinv.taken (List.contains_iff_mem.mp hg)).mp htaken)
    exact progressHandler_ignores hignored update
  · intro e t he hs hbegins hsummary
    by_cases hreturns : ∃ summary, e = .scanReturns (.ok summary)
    · obtain ⟨summary, rfl⟩ := hreturns
      obtain ⟨hphase, hs⟩ := Option.ite_none_right_eq_some.mp hs
      cases hs
      rw [hinv.completed hphase]
      obtain ⟨hpos, hupdates⟩ := hsummary summary rfl
      exact foldl_max_le hpos hupdates
    · exact (hinv.step he hs).completed hbegins fun summary he => hreturns ⟨summary, he⟩

/-- A device at 10.23.44.0 plus `n`. -/
def neighbor (n : UInt32) (hostname : Str) : DiscoveredDevice :=
  { address := Ipv4Subnet.format (169290752 + n), hostname := hostname }

/-- A scan reports two devices out of order, and the first one again; then it is cancelled and reports on. -/
def cancelledScan : List Event :=
  [.chooseInterface (some officeInterface), .scan, .settingsReturn (.ok {}), .managedReturns (fun _ => 0) (.ok []),
   .deliver (fun _ => 0) 1 { completed := 1, total := 1022, device := some (neighbor 9 []) },
   .deliver (fun _ => 0) 1 { completed := 3, total := 1022, device := some (neighbor 5 []) },
   .deliver (fun _ => 0) 1 { completed := 2, total := 1022, device := some (neighbor 9 (str "nas")) },
   .cancel,
   .deliver (fun _ => 0) 1 { completed := 4, total := 1022, device := some (neighbor 7 []) }]

theorem cancelled_scan_shown : ∃ log s, (machine .ascii decimal).Runs log s ∧
    s.shown = [neighbor 5 [], neighbor 9 (str "nas")] ∧ s.completed = 3 ∧
      Shows s s.shown (reports .ascii decimal log).records := by
  have hends : (((machine .ascii decimal).exec {} cancelledScan).any fun r =>
      decide (r.2.shown = [neighbor 5 [], neighbor 9 (str "nas")] ∧ r.2.completed = 3)) = true := by decide +kernel
  rcases hexec : (machine .ascii decimal).exec {} cancelledScan with _ | ⟨log, s⟩
  · rw [hexec] at hends
    cases hends
  · rw [hexec] at hends
    obtain ⟨hshown, hcompleted⟩ := of_decide_eq_true hends
    have hcanonical : Machine.Throughout Canonical log := by
      have hevents : ∀ e ∈ cancelledScan, ∀ s, Canonical s e := by
        have hdevice (n : UInt32) (name : Str) : ∀ d, some (neighbor n name) = some d → ∃ ip, d.address = Ipv4Subnet.format ip :=
          fun d hd => ⟨169290752 + n, by rw [← Option.some.inj hd]; rfl⟩
        unfold cancelledScan
        simp only [List.forall_mem_cons]
        exact ⟨fun _ => trivial, fun _ => trivial, fun _ => trivial, fun _ => trivial, fun _ => hdevice 9 [], fun _ => hdevice 5 [],
          fun _ => hdevice 9 (str "nas"), fun _ => trivial, fun _ => hdevice 7 [], fun _ h => absurd h List.not_mem_nil⟩
      intro p hp
      refine hevents p.2 ?_ p.1
      rw [← Machine.exec_events hexec]
      exact List.mem_map_of_mem hp
    exact ⟨log, s, Machine.runs_of_exec rfl hexec, hshown, hcompleted,
      (rows_show_the_scan .ascii decimal (Machine.runs_of_exec rfl hexec) hcanonical).1⟩

end Runs

end MythLab.App.DiscoveryViewModel
