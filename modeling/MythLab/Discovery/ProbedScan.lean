/-
  MythLab.Discovery.ProbedScan — a scan over the Windows probe.

  Its events are those of any scan, with the answers the probe can give: the entries that
  `WindowsArp` reads from what Windows wrote, the addresses ARP resolves, the names of
  reverse DNS, and an interface that was listed.

  Proved of every run, whatever the network answers and however the workers interleave
  (`scan_publishes_probed`): every record that is published or stored has a canonical
  address, a MAC address that is normal or absent, and a host name that the probe let
  through; the draft made of it is accepted as it is, unless the host name is too long for
  a name.
-/
import MythLab.Discovery.Drafts
import MythLab.Discovery.WindowsLanProbe

namespace MythLab.Discovery.NetworkDiscoveryService

open Lib Dotnet Devices DeviceRules

/-- What the Windows probe answers. -/
def ProbeAnswers (fw : Framework) (_ : State) : Event → Prop
  | .neighborsReturn entries => ∃ native : WindowsArp.Native, native.Fits ∧ WindowsArp.readNeighbors native = .ok entries
  | .resolveReturns _ mac => mac = none ∨ ∃ reply, WindowsArp.resolve reply = .ok mac
  | .nameReturns _ name => name = none ∨ ∃ hostName, name = reverseDnsName fw hostName
  | _ => True

/-- The interface was listed. -/
def WasListed (interface : LocalNetworkInterface) : Prop :=
  ∃ le cancelled adapters found n, WindowsLanProbe.getInterfaces le cancelled adapters = .ok found ∧ n ∈ found ∧
    n.toLocalNetworkInterface = interface

/-- A MAC address that is absent or in normal form. -/
def NormalMac (mac : Str) : Prop := mac = [] ∨ MacAddress.normalize mac = .ok mac

variable {fw : Framework} {scan : Scan} {s s' : State} {e : Event} {as : List Action} {i : Nat} {w w' : Worker}

/-! ## The invariant -/

/-- What a worker has found so far. -/
def WorkerProbed (fw : Framework) : Worker → Prop
  | .gathering _ mac _ => ∀ m ∈ mac, NormalMac m
  | .publishing _ device | .storing _ device | .naming device => Probed fw device
  | _ => True

/-- What is left to merge of a read of the cache. -/
def PhaseProbed (fw : Framework) : Phase → Prop
  | .merging _ entries => ∀ entry ∈ entries, WindowsArp.Usable entry
  | .storing _ _ device entries => Probed fw device ∧ ∀ entry ∈ entries, WindowsArp.Usable entry
  | _ => True

structure AllProbed (fw : Framework) (s : State) : Prop where
  stored : ∀ r ∈ s.results.rows, Probed fw r
  workers : ∀ w ∈ s.workers, WorkerProbed fw w
  phase : PhaseProbed fw s.phase

theorem orElse_cases {P : Str → Prop} {a b : Str} (ha : P a) (hb : P b) : P (DiscoveredDevice.orElse a b) := by
  unfold DiscoveredDevice.orElse
  split
  · exact ha
  · exact hb

theorem probed_published {device : DiscoveredDevice} (hstored : ∀ r ∈ s.results.rows, Probed fw r) (hd : Probed fw device) :
    Probed fw (published s.results device) := by
  rcases published_cases s.results device with ⟨heq, -⟩ | ⟨old, hold, -, heq⟩
  · rw [heq]
    exact hd
  · rw [heq]
    have hold := hstored old hold
    exact ⟨hd.address, orElse_cases (P := fun name => name = [] ∨ ProbedName fw name) hd.hostname hold.hostname,
      orElse_cases (P := NormalMac) hd.macAddress hold.macAddress⟩

theorem probed_stored {device : DiscoveredDevice} (hstored : ∀ r ∈ s.results.rows, Probed fw r) (hd : Probed fw device) :
    ∀ r ∈ (addOrUpdate s.results device).rows, Probed fw r := by
  intro r hr
  rcases mem_addOrUpdate.mp hr with rfl | ⟨hr, -⟩
  · exact probed_published hstored hd
  · exact hstored r hr

theorem afterPublish_probed (named : Bool) {device : DiscoveredDevice} (hd : Probed fw device) :
    WorkerProbed fw (afterPublish named device) := by
  cases named with
  | true => trivial
  | false => exact hd

theorem neighbor_probed {entry : NeighborEntry} {device : DiscoveredDevice} (hentry : WindowsArp.Usable entry)
    (h : scan.neighbor entry = .usable device) : Probed fw device := by
  unfold Scan.neighbor at h
  split at h
  · cases h
  · split at h
    · cases h
    · split at h <;> cases h
      exact ⟨hentry.address, Or.inl rfl, Or.inr hentry.normal⟩

/-! ## Steps -/

theorem moves_probed (h : Moves scan s i w e as w') (hs : AllProbed fw s) (hw : WorkerProbed fw w)
    (he : ProbeAnswers fw s e) : WorkerProbed fw w' := by
  cases h with
  | ping reply now => cases reply <;> trivial
  | lookUp evidence live =>
    unfold lookUp
    split
    · rename_i cached hcached
      split
      · intro m hm
        cases hm
        exact (hs.stored cached (Table.find_mem hcached)).macAddress
      · trivial
    · trivial
  | resolve evidence live mac =>
    intro m hm
    cases hm
    rcases he with hnone | ⟨reply, hreply⟩
    · cases hnone
    · rcases WindowsArp.resolve_usable reply with hnone | ⟨m, hm, hnormal, -⟩
      · cases hreply.symm.trans hnone
      · cases hreply.symm.trans hm
        exact Or.inr hnormal
  | gather evidence mac live =>
    unfold Scan.gather
    split
    · refine ⟨⟨_, rfl⟩, Or.inl rfl, ?_⟩
      rcases hmac : mac with _ | m
      · rcases hcached : s.results.find (scan.address i) with _ | cached
        · exact Or.inl rfl
        · exact (hs.stored cached (Table.find_mem hcached)).macAddress
      · exact hw m hmac
    · trivial
  | check named device =>
    split
    · exact afterPublish_probed named hw
    · exact hw
  | name device name =>
    unfold afterName
    split
    · trivial
    · rename_i hblank
      rcases he with rfl | ⟨hostName, rfl⟩
      · exact absurd rfl hblank
      · rcases hname : reverseDnsName fw hostName with _ | name
        · rw [hname] at hblank
          exact absurd rfl hblank
        · exact ⟨hw.address, Or.inr (reverseDnsName_probed hname), hw.macAddress⟩
  | throws w => trivial

theorem AllProbed.setWorker (h : AllProbed fw s) (i : Nat) (hw : WorkerProbed fw w) : AllProbed fw (s.setWorker i w) := by
  refine ⟨h.stored, ?_, h.phase⟩
  intro v hv
  rcases List.mem_or_eq_of_mem_set hv with hv | rfl
  · exact h.workers v hv
  · exact hw

theorem change_probed (hinterface : WasListed scan.interface) (h : Change scan s e as s') (hs : AllProbed fw s)
    (he : ProbeAnswers fw s e) : AllProbed fw s' := by
  have hmerged (final : Bool) : AllProbed fw (s.merged final) := by
    refine ⟨hs.stored, hs.workers, ?_⟩
    cases final with
    | true => trivial
    | false => trivial
  cases h with
  | cancel => exact ⟨hs.stored, hs.workers, hs.phase⟩
  | neighborsReturn final entries _ =>
    obtain ⟨native, hfits, hread⟩ := he
    exact ⟨hs.stored, hs.workers, fun entry hentry => WindowsArp.readNeighbors_usable hfits hread hentry⟩
  | neighborsFail final _ _ => exact hmerged final
  | merged final _ => exact hmerged final
  | malformed final _ _ _ _ => exact hmerged final
  | skip final entry entries hp _ =>
    have hphase := hs.phase
    rw [hp] at hphase
    exact ⟨hs.stored, hs.workers, fun other hother => hphase other (List.mem_cons_of_mem _ hother)⟩
  | pick final entry entries device hp husable =>
    have hphase := hs.phase
    rw [hp] at hphase
    exact ⟨hs.stored, hs.workers, neighbor_probed (hphase entry List.mem_cons_self) husable,
      fun other hother => hphase other (List.mem_cons_of_mem _ hother)⟩
  | storeNeighbor final entry device entries hp =>
    have hphase := hs.phase
    rw [hp] at hphase
    exact ⟨probed_stored hs.stored hphase.1, hs.workers, hphase.2⟩
  | take now _ _ =>
    refine ⟨hs.stored, forall_snoc hs.workers ?_, hs.phase⟩
    unfold Scan.start
    split
    · intro m hm
      cases hm
      obtain ⟨le, cancelled, adapters, found, n, hfound, hn, heq⟩ := hinterface
      rw [← heq]
      exact (WindowsLanProbe.getInterfaces_listed hfound hn).macAddress
    · trivial
  | move i w w' e as _ hw hmoves =>
    exact hs.setWorker i (moves_probed hmoves hs (hs.workers w (List.mem_of_getElem? hw)) he)
  | store i named device _ hw =>
    have hdevice : Probed fw device := hs.workers _ (List.mem_of_getElem? hw)
    have hset := hs.setWorker i (afterPublish_probed named hdevice)
    exact ⟨probed_stored hs.stored hdevice, hset.workers, hset.phase⟩
  | report i _ _ =>
    have hset : AllProbed fw (s.setWorker i .ended) := hs.setWorker i trivial
    exact ⟨hset.stored, hset.workers, hset.phase⟩
  | neighborsCancelled | fail | join => exact ⟨hs.stored, hs.workers, trivial⟩

/-! ## Runs -/

variable {log : Log}

/-- What is stored, on its way or published in a run is what the probe lets through. -/
theorem runs_probed (hinterface : WasListed scan.interface) (h : (scanning scan).Runs log s)
    (hanswers : Machine.Throughout (ProbeAnswers fw) log) : AllProbed fw s ∧ ∀ d ∈ records scan log, Probed fw d := by
  induction h with
  | init hs =>
    cases hs
    exact ⟨⟨fun _ hr => (by cases hr), fun _ hw => (by cases hw), trivial⟩, fun _ hd => (by cases hd)⟩
  | @step log s s' e _ hstep ih =>
    obtain ⟨hlog, he⟩ := (Machine.throughout_snoc _ _ _ _).mp hanswers
    obtain ⟨hprobed, hrecords⟩ := ih hlog
    obtain ⟨⟨as, _⟩, hgo, rfl⟩ := Option.map_eq_some_iff.mp hstep
    have hchange := go_change hgo
    refine ⟨change_probed hinterface hchange hprobed he, ?_⟩
    rw [records_snoc log hgo]
    intro d hd
    rcases List.mem_append.mp hd with hd | hd
    · exact hrecords d hd
    · cases hchange with
      | storeNeighbor final entry device entries hp =>
        have hphase := hprobed.phase
        rw [hp] at hphase
        rw [List.mem_singleton.mp hd]
        exact probed_published hprobed.stored hphase.1
      | store i named device _ hw =>
        rw [List.mem_singleton.mp hd]
        exact probed_published hprobed.stored (hprobed.workers _ (List.mem_of_getElem? hw))
      | move i w w' e as _ _ hmoves =>
        rw [records_none (moves_record hmoves)] at hd
        cases hd
      | _ => cases hd

/-- Every record that a scan over the Windows probe publishes or stores is what the probe lets through;
    the draft made of it is accepted as it is, where the host name is not too long for a name. -/
theorem scan_publishes_probed (hnames : SpacelessNames fw) (hinterface : WasListed scan.interface)
    (h : (scanning scan).Runs log s) (hanswers : Machine.Throughout (ProbeAnswers fw) log) {d : DiscoveredDevice}
    (hd : d ∈ records scan log ∨ d ∈ s.results.rows) : Probed fw d ∧
      ∀ id, id ≠ Guid.empty → d.hostname.length ≤ 120 → normalizeAndValidate fw (d.toDevice id) = .ok (d.toDevice id) := by
  obtain ⟨hall, hrecords⟩ := runs_probed hinterface h hanswers
  have hprobed : Probed fw d := hd.elim (hrecords d) (hall.stored d)
  exact ⟨hprobed, fun id hid hlength => draft_accepted hnames hprobed hid hlength⟩

/-! ## A run -/

def wifi : WindowsLanProbe.Adapter where
  id := str "b"
  name := str "Wi-Fi"
  isUp := true
  isLoopback := false
  supportsIPv4 := true
  addresses := .ok [(0x0A000009, 0xFFFFFF00)]
  index := .ok (some 7)
  physical := .ok [2, 0, 0, 0, 0, 9]

def wifiInterface : LocalNetworkInterface :=
  ⟨str "b", 7, str "10.0.0.9", str "255.255.255.0", str "02:00:00:00:00:09"⟩

theorem wifi_was_listed : WasListed wifiInterface :=
  ⟨binaryLe, fun _ => false, [wifi], _, { wifiInterface with name := str "Wi-Fi" }, by decide +kernel,
    List.mem_singleton_self _, rfl⟩

/-- One address is scanned; it is in the cache, answers a ping and has a name. -/
def routerEvents : List Event :=
  [.neighborsReturn [⟨7, str "10.0.0.1", str "02:00:00:00:00:01"⟩], .merge, .storeNeighbor, .merge, .take ⟨1, 0⟩,
    .pingReturns 0 true ⟨2, 0⟩, .lookUp 0, .gather 0, .check 0, .store 0, .nameReturns 0 (some (str "router.lan")),
    .check 0, .store 0, .report 0, .join]

theorem router_answers : ∀ e ∈ routerEvents, ∀ s, ProbeAnswers Framework.ascii s e := by
  intro e he s
  unfold routerEvents at he
  rw [List.mem_cons, or_comm] at he
  rcases he with he | rfl
  · by_cases hname : e = .nameReturns 0 (some (str "router.lan"))
    · subst hname
      exact Or.inr ⟨str "router.lan.", by decide +kernel⟩
    · simp only [List.mem_cons, hname, List.not_mem_nil, or_false, false_or] at he
      rcases he with rfl | rfl | rfl | rfl | rfl | rfl | rfl | rfl | rfl | rfl | rfl | rfl | rfl <;> trivial
  · exact ⟨WindowsArp.twoNeighbors, WindowsArp.twoNeighbors_fits, by decide +kernel⟩

theorem router_is_probed : ∃ log s d, (scanning ⟨wifiInterface, ⟨0x0A000001, 0x0A000001, 1⟩, 1, none⟩).Runs log s ∧
    d ∈ s.results.rows ∧ d.hostname = str "router.lan" ∧ (Probed Framework.ascii d ∧ ∀ id, id ≠ Guid.empty →
      d.hostname.length ≤ 120 → normalizeAndValidate Framework.ascii (d.toDevice id) = .ok (d.toDevice id)) := by
  obtain ⟨log, s, hruns, hevents, hp⟩ := (scanning ⟨wifiInterface, ⟨0x0A000001, 0x0A000001, 1⟩, 1, none⟩).exists_run_by
    (fun _ s => s.results.rows.any fun d => d.hostname == str "router.lan") routerEvents rfl (by decide +kernel)
  obtain ⟨d, hd, hname⟩ := List.any_eq_true.mp hp
  have hanswers : Machine.Throughout (ProbeAnswers Framework.ascii) log := by
    intro p hp
    refine router_answers p.2 ?_ p.1
    rw [← hevents]
    exact List.mem_map_of_mem hp
  exact ⟨log, s, d, hruns, hd, eq_of_beq hname,
    scan_publishes_probed spacelessNames_ascii wifi_was_listed hruns hanswers (Or.inr hd)⟩

end MythLab.Discovery.NetworkDiscoveryService
