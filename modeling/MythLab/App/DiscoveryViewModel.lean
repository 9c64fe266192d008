/-
  MythLab.App.DiscoveryViewModel — the discovery page: choosing an interface, scanning its
  addresses, and adding what was found to the inventory.

  One command of the page runs at a time; it gives way at its awaits, and the events in
  between are the user's, the shell's and the updates of the scans. The handler of a
  scan's progress keeps its scan's number and token, and may still be called after the
  scan (`progressHandler`). A row is an object: the list and the index by address hold its
  number, and an update of a known address changes the row in place.

  Proved here (`subnet_and_range_exact`): the arithmetic on subnets and ranges is exact,
  and the range the page fills in for an interface can be scanned.
-/
import MythLab.Discovery.ScanRange
import MythLab.Discovery.Drafts
import MythLab.Dotnet.Numbers
import MythLab.Lib.Machine
import MythLab.Settings.AppSettings

namespace MythLab.App.DiscoveryViewModel

open Lib Lib.Eff Dotnet Devices Discovery Settings

/-- `DiscoveryItemViewModel` -/
structure Row where
  device : DiscoveredDevice
  managedLabel : Str := str "Not managed"
  isManaged : Bool := false
  deriving DecidableEq, Repr

/-- What the running command of the page waits for. -/
inductive Phase where
  | idle
  | loadingSettings
  /-- The inventory, before the scan of this request. -/
  | listing (request : DiscoveryRequest)
  | reporting
  | readingInterfaces
  | listingForInterfaces
  | rechecking (row : Nat)
  | inDialog
  | listingAdded
  deriving DecidableEq, Repr

structure State where
  managed : List Device := []
  byAddress : List (Str × Nat) := []
  scanGeneration : Nat := 0
  /-- Every row made so far; a row's number is its place. -/
  rows : List Row := []
  results : List Nat := []
  selectedInterface : Option LocalNetworkInterface := none
  selectedResult : Option Nat := none
  startAddress : Str := []
  endAddress : Str := []
  message : Str := str "Choose a network interface and scan for devices."
  diagnostic : Str := []
  completed : Int := 0
  total : Int := 1
  isScanning : Bool := false
  isBusy : Bool := false
  phase : Phase := .idle
  /-- The scans whose progress has a handler. -/
  handlers : List Nat := []
  /-- The scans whose token is cancelled. -/
  cancelled : List Nat := []
  deriving DecidableEq, Repr

namespace State

def canConfigure (s : State) : Bool := !s.isScanning && !s.isBusy

def canScan (s : State) : Bool := s.canConfigure && s.selectedInterface.isSome

def row (s : State) (i : Nat) : Option Row := s.rows[i]?

/-- The records that the rows of the list show. -/
def shown (s : State) : List DiscoveredDevice := s.results.filterMap fun i => (s.row i).map Row.device

def setDevice (s : State) (i : Nat) (found : DiscoveredDevice) : State :=
  { s with rows := s.rows.modify i fun r => { r with device := found } }

/-- The request that `ScanAsync` makes. -/
def request (s : State) (i : LocalNetworkInterface) (settings : AppSettings) : DiscoveryRequest where
  interface := i
  startAddress := s.startAddress
  endAddress := s.endAddress
  concurrency := settings.discoveryConcurrency
  timeoutMilliseconds := settings.probeTimeoutMilliseconds

end State

/-! ## The interface -/

/-- What is filled in for an interface; `grouped` is `ToString("N0")` in the culture of the user. -/
def State.prefill (grouped : Nat → Str) (value : LocalNetworkInterface) (subnet : Ipv4Subnet) (s : State) : State :=
  if subnet.hostCount.toNat ≤ DiscoveryRequest.maximumAddresses then
    { s with
      startAddress := Ipv4Subnet.format subnet.firstHost
      endAddress := Ipv4Subnet.format subnet.lastHost
      message := str "Selected " ++ subnet.cidr ++ str ". Review the range, then scan." }
  else
    { s with
      startAddress := value.address
      endAddress := value.address
      message := str "This subnet has " ++ grouped subnet.hostCount.toNat ++
        str " addresses. Enter a range of at most " ++ grouped DiscoveryRequest.maximumAddresses ++
        str "; no full-subnet scan is started automatically." }

def onSelectedInterfaceChanged (grouped : Nat → Str) : Option LocalNetworkInterface → Eff State Exn Unit
  | none => pure ()
  | some value => do
    let subnet ← lift value.subnet
    modify (·.prefill grouped value subnet)

/-- The setter of `SelectedInterface`. -/
def setSelectedInterface (grouped : Nat → Str) (value : Option LocalNetworkInterface) : Eff State Exn Unit := do
  let s ← get
  provided (s.selectedInterface ≠ value) (do
    modify fun s => { s with selectedInterface := value }
    onSelectedInterfaceChanged grouped value) ()

/-! ## Matching -/

/-- The first managed device that matches, and why. -/
def firstMatch (fw : Framework) (candidate : Device) : List Device → Except Exn (Option (Device × String))
  | [] => pure none
  | d :: managed => do
    match ← DeviceRules.matchReason fw candidate d with
    | some reason => pure (some (d, reason))
    | none => firstMatch fw candidate managed

def Row.matched (r : Row) : Option (Device × String) → Row
  | none => { r with isManaged := false, managedLabel := str "Not managed" }
  | some (d, reason) =>
    { r with isManaged := true, managedLabel := str "Managed: " ++ d.displayName ++ str " (" ++ str reason ++ str ")" }

/-- `Match`; `ids` are the new ids of the devices the rows are compared as. -/
def matchRow (fw : Framework) (ids : Nat → Guid) (i : Nat) : Eff State Exn Unit := do
  let s ← get
  match s.row i with
  | none => pure ()
  | some r => do
    let found ← lift (firstMatch fw (r.device.toDevice (ids i)) s.managed)
    modify fun s => { s with rows := s.rows.modify i (·.matched found) }

/-- `RefreshManagedAsync`, when the inventory has been read. -/
def refreshManaged (fw : Framework) (ids : Nat → Guid) (devices : List Device) : Eff State Exn Unit := do
  modify fun s => { s with managed := devices }
  let s ← get
  s.results.forM (matchRow fw ids)

/-! ## The progress of a scan -/

/-- Where the row of an address goes: behind those of lower addresses. -/
def position (ip : UInt32) : List DiscoveredDevice → Except Exn Nat
  | [] => pure 0
  | d :: shown => do
    let other ← Ipv4Subnet.parse d.address
    if other < ip then do
      let n ← position ip shown
      pure (n + 1)
    else pure 0

/-- The row that shows the record from now on. -/
def showRecord (found : DiscoveredDevice) : Eff State Exn Nat := do
  let s ← get
  match s.byAddress.lookup found.address with
  | some i => do
    modify (·.setDevice i found)
    pure i
  | none => do
    let i := s.rows.length
    modify fun s => { s with rows := s.rows ++ [{ device := found }], byAddress := s.byAddress ++ [(found.address, i)] }
    let ip ← lift (Ipv4Subnet.parse found.address)
    let s ← get
    let place ← lift (position ip s.shown)
    modify fun s => { s with results := s.results.insertIdx place i }
    pure i

/-- The handler of a scan no longer takes its updates. -/
def State.ignores (s : State) (generation : Nat) : Bool :=
  !s.isScanning || s.scanGeneration != generation || s.cancelled.contains generation

/-- The handler of the progress of a scan. -/
def progressHandler (fw : Framework) (ids : Nat → Guid) (generation : Nat) (update : DiscoveryUpdate) :
    Eff State Exn Unit := do
  let s ← get
  provided (s.ignores generation = false) (do
    modify fun s => { s with
      completed := max s.completed update.completed
      total := update.total
      diagnostic := update.diagnostic.getD s.diagnostic }
    match update.device with
    | none => pure ()
    | some found => do
      let i ← showRecord found
      matchRow fw ids i) ()

/-! ## The commands -/

/-- What a program leaves, and where it threw, `failed` of it. -/
def State.attempt (s : State) (m : Eff State Exn Unit) (failed : Exn → State → State) : State :=
  match m s with
  | (.ok _, s') => s'
  | (.error e, s') => failed e s'

def State.endBusy (s : State) (message : Str) : State := { s with message := message, isBusy := false, phase := .idle }

def State.endScan (s : State) (message : Str) : State := { s with message := message, isScanning := false, phase := .idle }

/-- What `ScanAsync` says of an exception. -/
def scanFailed (e : Exn) (s : State) : State :=
  s.endScan (match e with
    | .operationCanceled =>
      str "Scan cancelled. Kept " ++ decimal s.results.length ++ str " discoveries; remaining hosts were not checked."
    | .argument message => str message
    | .invalidOperation message => str message
    | _ => str "Discovery could not finish. Partial results were kept. Check Diagnostics and refresh interfaces.")

/-- `ScanAsync`, after the settings are read. -/
def prepareScan (settings : Except Exn AppSettings) : Eff State Exn Unit := do
  let settings ← lift settings
  let s ← get
  match s.selectedInterface with
  | none => throw (.other "Object reference not set to an instance of an object.")
  | some i => do
    let request := s.request i settings
    let _ ← lift request.validate
    modify fun s => { s with phase := .listing request }

/-- The list is cleared, and the progress of the scan has a handler. -/
def State.clear (s : State) : State :=
  { s with
    results := []
    byAddress := []
    selectedResult := none
    completed := 0
    diagnostic := []
    message := str "Scanning. Devices can appear even if ping is blocked."
    handlers := s.handlers ++ [s.scanGeneration]
    phase := .reporting }

/-- `ScanAsync`, after the inventory is read, up to its call of the service. -/
def beginReporting (fw : Framework) (ids : Nat → Guid) (devices : Except Exn (List Device)) : Eff State Exn Unit := do
  let devices ← lift devices
  refreshManaged fw ids devices
  modify State.clear

/-- `ScanAsync`, after the service has returned. -/
def scanReturned (s : State) : Except Exn DiscoverySummary → State
  | .ok summary =>
    { s with completed := summary.scanned }.endScan (str "Scan complete: " ++ intText summary.found ++
      str " devices discovered across " ++ intText summary.scanned ++ str " addresses.")
  | .error e => scanFailed e s

def interfacesFailed (e : Exn) (s : State) : State :=
  s.endBusy (match e with
    | .operationCanceled => str "Interface refresh cancelled."
    | _ => str "Could not read Windows network interfaces. Check Diagnostics and retry.")

/-- `RefreshInterfacesAsync`, after the interfaces are read. -/
def takeInterfaces (grouped : Nat → Str) (interfaces : Except Exn (List LocalNetworkInterface)) : Eff State Exn Unit := do
  let interfaces ← lift interfaces
  let s ← get
  let same := s.selectedInterface.bind fun previous =>
    interfaces.find? fun i => i.id = previous.id ∧ i.address = previous.address
  setSelectedInterface grouped (same.or interfaces.head?)
  provided (interfaces = []) (modify fun s =>
    { s with message := str "No active IPv4 interface was found. Connect to your LAN and refresh." }) ()
  modify fun s => { s with phase := .listingForInterfaces }

def addFailed (_ : Exn) (s : State) : State :=
  s.endBusy (str "Could not finish adding the device. Check Diagnostics, then refresh My Devices.")

/-- `AddSelectedAsync`, after the inventory is read again. -/
def recheck (fw : Framework) (ids : Nat → Guid) (i : Nat) (devices : Except Exn (List Device)) : Eff State Exn Unit := do
  let devices ← lift devices
  refreshManaged fw ids devices
  let s ← get
  if (s.row i).any Row.isManaged then
    modify (·.endBusy (str "This address, hostname or MAC already matches a managed device. Edit it from My Devices."))
  else
    modify fun s => { s with phase := .inDialog }

/-- `RefreshInterfacesAsync`, after the inventory is read. -/
def endRefresh (fw : Framework) (ids : Nat → Guid) (devices : Except Exn (List Device)) : Eff State Exn Unit := do
  let devices ← lift devices
  refreshManaged fw ids devices
  modify fun s => { s with isBusy := false, phase := .idle }

/-- `AddSelectedAsync`, after the inventory is read with the new device. -/
def endAdd (fw : Framework) (ids : Nat → Guid) (devices : Except Exn (List Device)) : Eff State Exn Unit := do
  let devices ← lift devices
  refreshManaged fw ids devices
  modify (·.endBusy (str "Device added to My Devices. Wake-on-LAN remains disabled unless you explicitly enabled it."))

/-- The inventory is read, for the command that waits for it. -/
def managedReturned (fw : Framework) (s : State) (ids : Nat → Guid) (devices : Except Exn (List Device)) : Option State :=
  match s.phase with
  | .listing _ => some (s.attempt (beginReporting fw ids devices) scanFailed)
  | .listingForInterfaces => some (s.attempt (endRefresh fw ids devices) interfacesFailed)
  | .rechecking i => some (s.attempt (recheck fw ids i devices) addFailed)
  | .listingAdded => some (s.attempt (endAdd fw ids devices) addFailed)
  | _ => none

inductive Event where
  | scan
  | settingsReturn (settings : Except Exn AppSettings)
  /-- The inventory that the running command asked for. -/
  | managedReturns (ids : Nat → Guid) (devices : Except Exn (List Device))
  /-- The handler of a scan is called. -/
  | deliver (ids : Nat → Guid) (generation : Nat) (update : DiscoveryUpdate)
  | scanReturns (summary : Except Exn DiscoverySummary)
  | cancel
  | refreshInterfaces
  | interfacesReturn (interfaces : Except Exn (List LocalNetworkInterface))
  | addSelected
  | dialogReturns (added : Except Exn Bool)
  /-- The shell refreshes the inventory. -/
  | refreshManaged (ids : Nat → Guid) (devices : List Device)
  | chooseInterface (value : Option LocalNetworkInterface)
  | enterRange (startAddress endAddress : Str)
  | chooseResult (i : Option Nat)

def step (fw : Framework) (grouped : Nat → Str) (s : State) : Event → Option State
  | .scan =>
    if s.canScan then
      some { s with isScanning := true, scanGeneration := s.scanGeneration + 1, phase := .loadingSettings }
    else none
  | .settingsReturn settings =>
    if s.phase = .loadingSettings then some (s.attempt (prepareScan settings) scanFailed) else none
  | .managedReturns ids devices => managedReturned fw s ids devices
  | .deliver ids generation update =>
    if s.handlers.contains generation then some (progressHandler fw ids generation update s).2 else none
  | .scanReturns summary => if s.phase = .reporting then some (scanReturned s summary) else none
  | .cancel => if s.isScanning then some { s with cancelled := s.cancelled ++ [s.scanGeneration] } else none
  | .refreshInterfaces =>
    if s.canConfigure then some { s with isBusy := true, phase := .readingInterfaces } else none
  | .interfacesReturn interfaces =>
    if s.phase = .readingInterfaces then some (s.attempt (takeInterfaces grouped interfaces) interfacesFailed) else none
  | .addSelected =>
    match s.selectedResult with
    | none => none
    | some i =>
      if s.canConfigure && !(s.row i).any Row.isManaged then some { s with isBusy := true, phase := .rechecking i }
      else none
  | .dialogReturns added =>
    if s.phase = .inDialog then
      some (match added with
        | .ok true => { s with phase := .listingAdded }
        | .ok false => { s with isBusy := false, phase := .idle }
        | .error e => addFailed e s)
    else none
  | .refreshManaged ids devices => some (refreshManaged fw ids devices s).2
  | .chooseInterface value => if s.isScanning then none else some (setSelectedInterface grouped value s).2
  | .enterRange startAddress endAddress =>
    if s.canConfigure then some { s with startAddress := startAddress, endAddress := endAddress } else none
  | .chooseResult i => some { s with selectedResult := i }

def machine (fw : Framework) (grouped : Nat → Str) : Machine State Event := ⟨(· = {}), step fw grouped⟩

/-! ## The range that is filled in -/

section Prefill

variable {i : LocalNetworkInterface} {subnet : Ipv4Subnet} {ip : UInt32} {settings : AppSettings} {s : State}

/-- A request of the page for two usable hosts that are not too far apart. -/
theorem request_accepted (hsubnet : i.subnet = .ok subnet) (hsettings : settings.validate = .ok ()) {first last : UInt32}
    (hfirst : Ipv4Subnet.parse s.startAddress = .ok first) (hlast : Ipv4Subnet.parse s.endAddress = .ok last)
    (hordered : first ≤ last) (hlow : subnet.containsHost first = true) (hhigh : subnet.containsHost last = true)
    (hfew : last.toNat - first.toNat + 1 ≤ DiscoveryRequest.maximumAddresses) :
    (s.request i settings).validate = .ok ⟨first, last, last.toNat - first.toNat + 1⟩ := by
  obtain ⟨-, -, -, -, hconcurrency, htimeout⟩ := AppSettings.validate_ok hsettings
  rw [DiscoveryRequest.validate_ok_iff]
  exact ⟨⟨hconcurrency, htimeout⟩, hfirst, hlast, hordered, ⟨subnet, hsubnet, hlow, hhigh⟩, rfl, hfew⟩

theorem onSelectedInterfaceChanged_eq (grouped : Nat → Str) (s : State) (hsubnet : i.subnet = .ok subnet) :
    onSelectedInterfaceChanged grouped (some i) s = (.ok (), s.prefill grouped i subnet) := by
  show (lift i.subnet >>= fun subnet => modify (State.prefill grouped i subnet)) s = _
  rw [hsubnet]
  rfl

theorem prefilled_accepted (grouped : Nat → Str) (s : State) (hsubnet : i.subnet = .ok subnet)
    (hip : Ipv4Subnet.parse i.address = .ok ip) (hhost : subnet.containsHost ip = true)
    (hsettings : settings.validate = .ok ()) :
    ∃ s', onSelectedInterfaceChanged grouped (some i) s = (.ok (), s') ∧
      ∃ range, (s'.request i settings).validate = .ok range := by
  obtain ⟨hge, hle⟩ := Ipv4Subnet.containsHost_iff.mp hhost
  have hhosts : subnet.firstHost ≤ subnet.lastHost := UInt32.le_trans hge hle
  refine ⟨_, onSelectedInterfaceChanged_eq grouped s hsubnet, ?_⟩
  unfold State.prefill
  split
  · rename_i hsmall
    have hlow := Ipv4Subnet.containsHost_iff.mpr ⟨UInt32.le_refl subnet.firstHost, hhosts⟩
    have hhigh := Ipv4Subnet.containsHost_iff.mpr ⟨hhosts, UInt32.le_refl subnet.lastHost⟩
    rw [Ipv4Subnet.toNat_hostCount hhosts] at hsmall
    exact ⟨_, request_accepted hsubnet hsettings (Ipv4Subnet.parse_format subnet.firstHost)
      (Ipv4Subnet.parse_format subnet.lastHost) hhosts hlow hhigh hsmall⟩
  · -- too many hosts: the interface's own address
    have hone : ip.toNat - ip.toNat + 1 ≤ DiscoveryRequest.maximumAddresses := by
      rw [Nat.sub_self]
      decide
    exact ⟨_, request_accepted hsubnet hsettings hip hip (UInt32.le_refl ip) hhost hhost hone⟩

end Prefill

/-- The subnet of every dotted address and mask exists exactly when the mask is `p` ones and then zeros,
    and is the block of `2 ^ (32 - p)` addresses around the address; the offsets of every accepted request
    enumerate its addresses, all usable hosts; and the page fills in, for every interface whose address is
    a usable host, a range that is accepted. -/
theorem subnet_and_range_exact (grouped : Nat → Str) :
    (∀ (address mask : Str) (ip bits : UInt32), Ipv4Subnet.parse address = .ok ip → Ipv4Subnet.parse mask = .ok bits →
      ((∃ subnet, Ipv4Subnet.create address mask = .ok subnet) ↔ ∃ p, Ipv4Subnet.IsMask p bits) ∧
        ∀ p subnet, Ipv4Subnet.IsMask p bits → Ipv4Subnet.create address mask = .ok subnet → subnet.Spans ip p) ∧
      (∀ (r : DiscoveryRequest) (range : AddressRange), r.validate = .ok range → r.Covers range) ∧
        ∀ (s : State) (i : LocalNetworkInterface) (subnet : Ipv4Subnet) (ip : UInt32) (settings : AppSettings),
          i.subnet = .ok subnet → Ipv4Subnet.parse i.address = .ok ip → subnet.containsHost ip = true →
            settings.validate = .ok () → ∃ s', onSelectedInterfaceChanged grouped (some i) s = (.ok (), s') ∧
              ∃ range, (s'.request i settings).validate = .ok range := by
  refine ⟨?_, fun _ _ => DiscoveryRequest.validate_covers, ?_⟩
  · intro address mask ip bits hip hbits
    exact ⟨Ipv4Subnet.create_ok_iff hip hbits, fun _ _ => Ipv4Subnet.create_spans hip hbits⟩
  · intro s i subnet ip settings hsubnet hip hhost hsettings
    exact prefilled_accepted grouped s hsubnet hip hhost hsettings

/-- An interface with 1022 usable hosts, its own address 10.23.45.67 among them. -/
def officeInterface : LocalNetworkInterface where
  id := str "office"
  index := 4
  address := str "10.23.45.67"
  mask := str "255.255.252.0"
  macAddress := str "02:00:00:00:00:01"

def officeSubnet : Ipv4Subnet := { network := 169290752, broadcast := 169291775, prefixLength := 22 }

theorem office_range_filled_in : officeSubnet.Spans 169291075 22 ∧
    (DiscoveryRequest.mk officeInterface (str "10.23.44.1") (str "10.23.44.9") 32 750).Covers ⟨169290753, 169290761, 9⟩ ∧
      ∃ s', onSelectedInterfaceChanged decimal (some officeInterface) {} = (.ok (), s') ∧
        ∃ range, (s'.request officeInterface {}).validate = .ok range := by
  have hip : Ipv4Subnet.parse officeInterface.address = .ok 169291075 := by decide +kernel
  have hmask : Ipv4Subnet.parse officeInterface.mask = .ok 4294966272 := by decide +kernel
  have hsubnet : officeInterface.subnet = .ok officeSubnet := by decide +kernel
  obtain ⟨hsubnets, hrequests, hprefills⟩ := subnet_and_range_exact decimal
  refine ⟨?_, ?_, ?_⟩
  · exact (hsubnets _ _ _ _ hip hmask).2 22 _ ⟨by decide, rfl⟩ hsubnet
  · exact hrequests _ _ (by decide +kernel)
  · exact hprefills _ _ _ _ _ hsubnet hip (by decide +kernel) rfl

end MythLab.App.DiscoveryViewModel
