/-
  MythLab.App.DeviceEditorViewModel — the device editor: a record as editable text, and
  what saving that text stores.

  Tags are shown joined by commas, numbers in digits; saving splits and reads them back,
  and the record goes through normalization and the save-time merge. Proved: the text of
  a normal record without commas in its tags is read back as the record
  (`edited_unchanged`); saving an unchanged record changes nothing of the store, exactly
  when no tag has a comma and no blanks surround the interface id
  (`unchanged_save_is_noop`). The list of interfaces offered is not modelled.
-/
import MythLab.Dotnet.Numbers
import MythLab.Dotnet.Splitting
import MythLab.Storage.NormalRecords

namespace MythLab.App

open Lib Dotnet Devices

structure DeviceEditorViewModel where
  original : Device
  displayName : Str
  hostname : Str
  ipAddress : Str
  macAddress : Str
  deviceType : DeviceType
  group : Str
  notes : Str
  tags : Str
  wakeEnabled : Bool
  broadcastAddress : Str
  interfaceId : Str
  wakePort : Str
  packetCount : Str
  retryCount : Str
  retryDelayMilliseconds : Str
  delayMilliseconds : Str
  statusCheck : StatusCheckKind
  statusPort : Str
  deriving DecidableEq, Repr

namespace DeviceEditorViewModel

open Storage Repository DeviceRules NormalRecords

/-- `new DeviceEditorViewModel(repository, logger, original)` -/
def create (original : Device) : DeviceEditorViewModel where
  original := original
  displayName := original.displayName
  hostname := original.hostname
  ipAddress := original.ipv4Address
  macAddress := original.macAddress
  deviceType := original.type
  group := original.group
  notes := original.notes
  tags := join (str ", ") original.tags
  wakeEnabled := original.wake.capability ≠ .disabled
  broadcastAddress := original.wake.broadcastAddress
  interfaceId := original.wake.interfaceId
  wakePort := intText original.wake.port
  packetCount := intText original.wake.packetCount
  retryCount := intText original.wake.retryCount
  retryDelayMilliseconds := intText original.wake.retryDelayMilliseconds
  delayMilliseconds := intText original.wake.delayMilliseconds
  statusCheck := original.statusCheck
  statusPort := intText original.statusPort

def wholeNumber (text : Str) : Except Exn Int :=
  match tryParseInt text with
  | some n => .ok n
  | none => .error (.deviceValidation "Ports, packet count, retries and delay must be whole numbers.")

/-- Verified status is preserved only if all settings and the target MAC are unchanged. -/
def keepVerified (vm : DeviceEditorViewModel) (wake : WakeConfiguration) : Except Exn WakeConfiguration :=
  if vm.original.wake.capability = .verified ∧ vm.wakeEnabled = true ∧
      { wake with capability := .verified } = vm.original.wake then do
    let mac ← MacAddress.normalize vm.macAddress
    pure (if mac = vm.original.macAddress then { wake with capability := .verified } else wake)
  else pure wake

/-- The record that the text describes. -/
def edited (fw : Framework) (vm : DeviceEditorViewModel) : Except Exn Device := do
  let port ← wholeNumber vm.wakePort
  let packets ← wholeNumber vm.packetCount
  let retries ← wholeNumber vm.retryCount
  let delay ← wholeNumber vm.delayMilliseconds
  let checkPort ← wholeNumber vm.statusPort
  let retryDelay ← wholeNumber vm.retryDelayMilliseconds
  let wake ← vm.keepVerified
    { vm.original.wake with
      capability := if vm.wakeEnabled then .enabledUnverified else .disabled
      broadcastAddress := vm.broadcastAddress
      interfaceId := trim vm.interfaceId
      port := port
      packetCount := packets
      retryCount := retries
      delayMilliseconds := delay
      retryDelayMilliseconds := retryDelay }
  normalizeAndValidate fw
    { vm.original with
      displayName := vm.displayName
      hostname := vm.hostname
      ipv4Address := vm.ipAddress
      macAddress := vm.macAddress
      type := vm.deviceType
      group := vm.group
      notes := vm.notes
      tags := split (chr ',') vm.tags
      wake := wake
      statusCheck := vm.statusCheck
      statusPort := checkPort }

/-- How a save ends: `Saved` is raised, or `Error` is shown. -/
inductive Outcome where
  | saved
  | failed (error : String)
  deriving DecidableEq, Repr

/-- The exception as `Error` shows it. -/
def errorText : Exn → String
  | .deviceValidation message => message
  | .duplicateDevice message => message
  | .argument message => message
  | .operationCanceled => "Save cancelled."
  | _ => "Could not save the device. Check the data folder and diagnostics, then retry."

def saveAsync (fw : Framework) (faults : Nat → Fault Exn) (vm : DeviceEditorViewModel) : Op Outcome :=
  tryCatch
    (do
      let updated ← Eff.lift (vm.edited fw)
      Repository.saveAsync fw faults updated
      pure .saved)
    fun e => pure (.failed (errorText e))

/-- A save that nothing disturbs, and the store it leaves. -/
def save (fw : Framework) (s : Store) (vm : DeviceEditorViewModel) : Except Exn Outcome × Store :=
  let r := saveAsync fw (fun _ => .none) vm ⟨s, []⟩
  (r.1, r.2.state)

/-- A save from `s` ends with `r` in `t`: the text is a record that the repository saves, or an error
    is shown. -/
def Ends (fw : Framework) (s : Store) (vm : DeviceEditorViewModel) (r : Except Exn Outcome) (t : Store) : Prop :=
  (r = .ok .saved ∧ ∃ updated db, vm.edited fw = .ok updated ∧ saveDevice fw updated s.db = .ok db ∧
    t = { s with db := db }) ∨
  ((∃ message, r = .ok (.failed message)) ∧
    ∀ updated db, vm.edited fw = .ok updated → saveDevice fw updated s.db ≠ .ok db)

theorem save_ends (fw : Framework) {s : Store} (vm : DeviceEditorViewModel) (hinit : s.initialized = true) :
    Ends fw s vm (save fw s vm).1 (save fw s vm).2 := by
  have hend : Eff.wp (saveAsync fw (fun _ => .none) vm) (fun r w => Ends fw s vm r w.state) ⟨s, []⟩ := by
    unfold saveAsync
    rw [Eff.wp_tryCatch]
    refine Eff.wp_lift_step ?_ ?_
    · intro e he
      refine Or.inr ⟨⟨_, rfl⟩, ?_⟩
      intro updated db hok
      rw [he] at hok
      cases hok
    · intro updated hupdated
      rw [Eff.wp_bind]
      refine Eff.wp_mono (saveAsync_performs fw (fun _ => .none) s updated ⟨s, []⟩ rfl) ?_
      intro r w hr
      rcases hr with ⟨_, db, rfl, hsave, hw⟩ | ⟨e, rfl, -, hsave⟩
      · exact Or.inl ⟨rfl, updated, db, hupdated, (returning_ok_iff.mp hsave).2, hw⟩
      · refine Or.inr ⟨⟨_, rfl⟩, ?_⟩
        intro other db hok hdb
        obtain rfl := Except.ok.inj (hupdated.symm.trans hok)
        rw [hdb] at hsave
        rcases hsave with hsave | hdisturbed
        · cases hsave
        · exact not_disturbed hinit hdisturbed
  exact hend

/-- The editor raises `Saved` exactly when the text is a record and the repository saves it. -/
theorem save_saved_iff {fw : Framework} {s t : Store} {vm : DeviceEditorViewModel} (hinit : s.initialized = true) :
    save fw s vm = (.ok .saved, t) ↔
      ∃ updated db, vm.edited fw = .ok updated ∧ saveDevice fw updated s.db = .ok db ∧ t = { s with db := db } := by
  have hend := save_ends fw vm hinit
  refine ⟨?_, ?_⟩
  · intro h
    rw [h] at hend
    rcases hend with ⟨-, hsaved⟩ | ⟨⟨message, hfailed⟩, -⟩
    · exact hsaved
    · cases hfailed
  · intro ⟨updated, db, hupdated, hdb, ht⟩
    rcases hend with ⟨hr, other, db', hother, hdb', hstore⟩ | ⟨-, hnot⟩
    · obtain rfl := Except.ok.inj (hupdated.symm.trans hother)
      obtain rfl := Except.ok.inj (hdb.symm.trans hdb')
      exact Prod.ext hr (hstore.trans ht.symm)
    · exact absurd hdb (hnot updated db hupdated)

/-! ## The text of a record -/

section Text

variable {fw : Framework} {d n : Device}

theorem wholeNumber_text {n : Int} (hn : 0 ≤ n) (hmax : n ≤ 2147483647) : wholeNumber (intText n) = .ok n := by
  unfold wholeNumber
  rw [tryParseInt_text hn hmax]

theorem trim_space_cons (s : Str) : trim ([chr ' '] ++ s) = trim s := by
  unfold trim
  rw [List.singleton_append, List.dropWhile_cons, if_pos (by decide)]

/-- Tags without a comma are read back from their text. -/
theorem normalizeTags_text {tags : List Str} (hcomma : ∀ t ∈ tags, chr ',' ∉ t)
    (hnormal : normalizeTags fw tags = tags) : normalizeTags fw (split (chr ',') (join (str ", ") tags)) = tags := by
  cases tags with
  | nil =>
    show normalizeTags fw (split (chr ',') []) = []
    rw [split_nil]
    rfl
  | cons t ts =>
    rw [List.forall_mem_cons] at hcomma
    have hparts : split (chr ',') (join (str ", ") (t :: ts)) = t :: ts.map ([chr ' '] ++ ·) :=
      split_join ts (by decide) hcomma.1 hcomma.2
    have htrim : (split (chr ',') (join (str ", ") (t :: ts))).map trim = (t :: ts).map trim := by
      rw [hparts, List.map_cons, List.map_cons, List.map_map]
      exact congrArg _ (List.map_congr_left fun u _ => trim_space_cons u)
    unfold normalizeTags at hnormal ⊢
    rw [htrim]
    exact hnormal

/-- No tag that is read from a text has a comma. -/
theorem not_mem_normalizeTags_split {text t : Str} (ht : t ∈ normalizeTags fw (split (chr ',') text)) : chr ',' ∉ t := by
  obtain ⟨hmap, -⟩ := List.mem_filter.mp (normalizeTags_sublist.subset ht)
  obtain ⟨part, hpart, rfl⟩ := List.mem_map.mp hmap
  intro hcomma
  refine not_mem_of_mem_split hpart ?_
  exact (List.dropWhile_suffix _).subset ((List.rdropWhile_prefix _ _).subset hcomma)

/-- Normalization reads the tags through `normalizeTags` only. -/
theorem Normal.with_tags (h : Normal fw d) {tags : List Str} (htags : normalizeTags fw tags = d.tags) :
    normalizeAndValidate fw { d with tags := tags } = .ok d := by
  obtain ⟨ip, mac, broadcast, ha, hd⟩ := normalizeAndValidate_ok_iff.mp h
  obtain ⟨-, hname, hhost, hip, hmac, -, hgroup, -, hnormal, hwake, -⟩ := Device.ext_iff.mp hd
  have hsame : normalizeTags fw tags = normalizeTags fw d.tags := htags.trans hnormal
  refine normalizeAndValidate_ok_iff.mpr ⟨ip, mac, broadcast, ?_, ?_⟩
  · exact { ha with
      tags := by
        show (normalizeTags fw tags).length ≤ 30 ∧ ∀ t ∈ normalizeTags fw tags, t.length ≤ 60
        rw [hsame]
        exact ha.tags }
  · exact Device.ext rfl hname hhost hip hmac rfl hgroup rfl htags.symm hwake rfl rfl rfl rfl rfl

theorem keepVerified_ok {vm : DeviceEditorViewModel} {wake kept : WakeConfiguration} (h : vm.keepVerified wake = .ok kept) :
    kept = { wake with capability := kept.capability } := by
  unfold keepVerified at h
  split at h
  · obtain ⟨mac, -, h⟩ := bind_ok_iff.mp h
    rw [← Except.ok.inj h]
    split <;> rfl
  · rw [← Except.ok.inj h]

theorem keepVerified_unchanged (hd : Normal fw d) :
    (create d).keepVerified
      { d.wake with capability := if (create d).wakeEnabled then .enabledUnverified else .disabled } = .ok d.wake := by
  obtain ⟨ip, mac, broadcast, ha, heq⟩ := normalizeAndValidate_ok_iff.mp hd
  unfold keepVerified
  cases hc : d.wake.capability with
  | undefined value =>
    have hdefined := ha.defined.2.2.2
    rw [hc] at hdefined
    cases hdefined
  | disabled =>
    rw [if_neg (by simp [create, hc])]
    exact congrArg Except.ok (WakeConfiguration.ext (by simp [create, hc]) rfl rfl rfl rfl rfl rfl rfl)
  | enabledUnverified =>
    rw [if_neg (by simp [create, hc])]
    exact congrArg Except.ok (WakeConfiguration.ext (by simp [create, hc]) rfl rfl rfl rfl rfl rfl rfl)
  | verified =>
    have hmac : MacAddress.normalize d.macAddress = .ok d.macAddress := by
      rcases (normalizeAndValidate_identity hd).mac with hnil | hmac
      · refine absurd ?_ (ha.wakeMac (by rw [hc]; decide))
        exact (congrArg Device.macAddress heq).symm.trans hnil
      · exact hmac
    have hwake : ({ d.wake with capability := .verified } : WakeConfiguration) = d.wake :=
      WakeConfiguration.ext hc.symm rfl rfl rfl rfl rfl rfl rfl
    rw [if_pos ⟨hc, by simp [create, hc], hwake⟩]
    show (MacAddress.normalize d.macAddress >>= _) = _
    rw [hmac, ok_bind]
    exact congrArg Except.ok ((if_pos rfl).trans hwake)

/-- The text of a normal record is read back as the record. -/
theorem edited_unchanged (hd : Normal fw d) (hcomma : ∀ t ∈ d.tags, chr ',' ∉ t)
    (hinterface : trim d.wake.interfaceId = d.wake.interfaceId) : (create d).edited fw = .ok d := by
  obtain ⟨ip, mac, broadcast, ha, heq⟩ := normalizeAndValidate_ok_iff.mp hd
  have htags : normalizeTags fw d.tags = d.tags := (congrArg Device.tags heq).symm
  have hports := ha.ports
  have hpackets := ha.packets
  unfold edited
  show (wholeNumber (intText d.wake.port) >>= fun port => wholeNumber (intText d.wake.packetCount) >>= fun packets =>
    wholeNumber (intText d.wake.retryCount) >>= fun retries => wholeNumber (intText d.wake.delayMilliseconds) >>= fun delay =>
    wholeNumber (intText d.statusPort) >>= fun checkPort =>
    wholeNumber (intText d.wake.retryDelayMilliseconds) >>= fun retryDelay => _) = _
  rw [wholeNumber_text (by omega) (by omega), ok_bind, wholeNumber_text (by omega) (by omega), ok_bind,
    wholeNumber_text (by omega) (by omega), ok_bind, wholeNumber_text (by omega) (by omega), ok_bind,
    wholeNumber_text (by omega) (by omega), ok_bind, wholeNumber_text (by omega) (by omega), ok_bind]
  show ((create d).keepVerified { d.wake with
      capability := if (create d).wakeEnabled then .enabledUnverified else .disabled
      interfaceId := trim d.wake.interfaceId } >>= _) = _
  rw [hinterface, keepVerified_unchanged hd, ok_bind]
  exact Normal.with_tags hd (normalizeTags_text hcomma htags)

/-- What the text of a record is read back as, if it is. -/
theorem edited_ok (h : (create d).edited fw = .ok n) :
    n.id = d.id ∧ n.tags = normalizeTags fw (split (chr ',') (join (str ", ") d.tags)) ∧
      n.wake.interfaceId = trim d.wake.interfaceId ∧ ∃ given, normalizeAndValidate fw given = .ok n := by
  obtain ⟨_, -, h⟩ := bind_ok_iff.mp h
  obtain ⟨_, -, h⟩ := bind_ok_iff.mp h
  obtain ⟨_, -, h⟩ := bind_ok_iff.mp h
  obtain ⟨_, -, h⟩ := bind_ok_iff.mp h
  obtain ⟨_, -, h⟩ := bind_ok_iff.mp h
  obtain ⟨_, -, h⟩ := bind_ok_iff.mp h
  obtain ⟨wake, hwake, h⟩ := bind_ok_iff.mp h
  have hinterface : wake.interfaceId = trim d.wake.interfaceId :=
    congrArg WakeConfiguration.interfaceId (keepVerified_ok hwake)
  obtain ⟨ip, mac, broadcast, -, hn⟩ := normalizeAndValidate_ok_iff.mp h
  refine ⟨?_, ?_, ?_, _, h⟩
  · rw [hn]
    rfl
  · rw [hn]
    rfl
  · rw [hn]
    exact hinterface

end Text

/-! ## Saving an unchanged record -/

section Unchanged

variable {fw : Framework} {c d n : Device}

theorem savedCapability_observed (h : ObservedFrom d c) (hd : Normal fw d) (hwake : DeviceTargets.sameWake c d = true) :
    savedCapability c d = c.wake.capability := by
  unfold savedCapability
  split
  · rename_i hdisabled
    rcases h.capability with hc | ⟨hne, -⟩
    · exact (hc.trans hdisabled).symm
    · exact absurd hdisabled hne
  · rename_i henabled
    split
    · rename_i hverified
      exact hverified.1.symm
    · rename_i hunverified
      have hc : c.wake.capability ≠ .verified := fun hc => hunverified ⟨hc, hwake⟩
      rcases h.capability with he | ⟨-, he⟩
      · have hdefined := (Normal.defined hd).2
        rw [he] at hc ⊢
        cases hcap : d.wake.capability with
        | disabled => exact absurd hcap henabled
        | enabledUnverified => rfl
        | verified => exact absurd hcap hc
        | undefined value =>
          rw [hcap] at hdefined
          cases hdefined
      · exact absurd he hc

/-- Saving a record as it was opened keeps what was observed since. -/
theorem mergeSaved_observed (h : ObservedFrom d c) (hd : Normal fw d) : mergeSaved c d = c := by
  have hsame : DeviceTargets.sameStatus c d = true := by
    rw [h.fields]
    exact DeviceTargets.sameStatus_self d
  have hwake : DeviceTargets.sameWake c d = true := by
    rw [h.fields]
    exact DeviceTargets.sameWake_self d
  have hcapability := savedCapability_observed h hd hwake
  unfold mergeSaved
  rw [hsame, hcapability]
  exact h.fields.symm

/-- A save that merges to the stored record changes nothing. -/
theorem saveDevice_unchanged {db : Database} {row : DeviceRow} (hdb : Identity.Identified fw db)
    (hrow : row ∈ db.devices.rows) (hn : Normal fw n) (hid : row.id = n.id)
    (hmerge : mergeSaved row.document n = row.document) : saveDevice fw n db = .ok db := by
  have hcolumns := hdb.columns row hrow
  have hmatch : ∀ r ∈ db.devices.rows, matchReason fw row.document r.document = .ok none := hdb.unmatched row hrow
  refine (Observations.saveDevice_stored hdb.ids hrow hn hid).mpr ?_
  rw [hmerge, ← hcolumns]
  refine ⟨hmatch, ?_, ?_⟩
  · rw [hcolumns]
    refine Identity.no_uniqueConflict hdb (hdb.normal row hrow) (checkDuplicates_ok_iff.mpr ?_)
    intro r hr
    obtain ⟨other, hother, rfl⟩ := mem_readDevices.mp hr
    exact hmatch other hother
  · unfold Database.setDevice
    rw [Table.set_rows_same fun x hx hkey => Table.key_inj hx hrow hkey]

/-- The text of the record says all of it: no comma in a tag, no blanks around the interface id. -/
def ReadsBack (d : Device) : Prop := (∀ t ∈ d.tags, chr ',' ∉ t) ∧ trim d.wake.interfaceId = d.wake.interfaceId

instance (d : Device) : Decidable (ReadsBack d) :=
  inferInstanceAs (Decidable ((∀ t ∈ d.tags, chr ',' ∉ t) ∧ trim d.wake.interfaceId = d.wake.interfaceId))

/-- A save that stores the same tags and the same interface id stores what the text says. -/
theorem readsBack_of_saved (hnames : SpacelessNames fw) {db db' : Database} {row : DeviceRow}
    (hdb : Identity.Identified fw db) (hrow : row ∈ db.devices.rows) (hobserved : ObservedFrom d row.document)
    (hid : row.id = d.id) (hn : (create d).edited fw = .ok n) (hsave : saveDevice fw n db = .ok db')
    (hkept : row ∈ db'.devices.rows) : ReadsBack d := by
  obtain ⟨hnid, htags, hinterface, given, hgiven⟩ := edited_ok hn
  have hsaved := ((Observations.saveDevice_stored hdb.ids hrow (Normal.of_normalized hnames hgiven)
    (hid.trans hnid.symm)).mp hsave).2.2
  have hnew : deviceRow (mergeSaved row.document n) ∈ db'.devices.rows := by
    rw [hsaved]
    exact Observations.setDevice_mem _ hrow (hid.trans hnid.symm)
  have hrecord : row = deviceRow (mergeSaved row.document n) := Table.key_inj hkept hnew (hid.trans hnid.symm)
  have hdocument : row.document = mergeSaved row.document n := congrArg DeviceRow.document hrecord
  refine ⟨?_, ?_⟩
  · have hd : d.tags = n.tags :=
      (congrArg Device.tags hobserved.fields).symm.trans ((congrArg Device.tags hdocument).trans rfl)
    intro t ht
    rw [hd, htags] at ht
    exact not_mem_normalizeTags_split ht
  · have hd : d.wake.interfaceId = n.wake.interfaceId :=
      (congrArg (·.wake.interfaceId) hobserved.fields).symm.trans ((congrArg (·.wake.interfaceId) hdocument).trans rfl)
    exact (hd.trans hinterface).symm

end Unchanged

/-- In every run, for every stored record and any observations after it was opened: the record is
    still there, different in the fields of the observations only. Saving the editor's text unchanged
    succeeds and leaves that record as it is exactly when no tag has a comma and no blanks surround the
    interface id; then it changes nothing in the store. -/
theorem unchanged_save_is_noop (fw : Framework) (hnames : SpacelessNames fw) (s t : Store)
    (hs : (repository fw).Reach s) (ht : ObservedInto fw s t) (row : DeviceRow) (hrow : row ∈ s.db.devices.rows) :
    ∃ now ∈ t.db.devices.rows, now.id = row.id ∧ ObservedFrom row.document now.document ∧
      (((save fw t (create row.document)).1 = .ok .saved ∧
          now ∈ (save fw t (create row.document)).2.db.devices.rows) ↔ ReadsBack row.document) ∧
      (ReadsBack row.document → save fw t (create row.document) = (.ok .saved, t)) := by
  have hreach := ht.reach hs
  have hdb := Identity.reach_identified hreach
  have hinit := reach_initialized hreach
  have hnormal : Normal fw row.document := reach_normalRecords hnames hs row hrow
  obtain ⟨now, hnow, hid, hobserved⟩ := ht.record hs hrow
  have hdocument : now.id = row.document.id := hid.trans ((Identity.reach_identified hs).ids row hrow)
  have hunchanged : ReadsBack row.document → save fw t (create row.document) = (.ok .saved, t) := by
    intro hreads
    refine (save_saved_iff hinit).mpr ⟨row.document, t.db, edited_unchanged hnormal hreads.1 hreads.2, ?_, rfl⟩
    exact saveDevice_unchanged hdb hnow hnormal hdocument (mergeSaved_observed hobserved hnormal)
  refine ⟨now, hnow, hid, hobserved, ⟨?_, ?_⟩, hunchanged⟩
  · intro ⟨hsaved, hkept⟩
    have hend : save fw t (create row.document) = (.ok .saved, (save fw t (create row.document)).2) :=
      Prod.ext hsaved rfl
    obtain ⟨updated, db, hupdated, hsave, hstore⟩ := (save_saved_iff hinit).mp hend
    rw [hstore] at hkept
    exact readsBack_of_saved hnames hdb hnow hobserved hdocument hupdated hsave hkept
  · intro hreads
    rw [hunchanged hreads]
    exact ⟨rfl, hnow⟩

/-- A device with two tags, woken through one interface. -/
def labelled : Device :=
  { Identity.nasStored with
    tags := [str "attic", str "backup"]
    wake := { capability := .enabledUnverified, interfaceId := str "eth0" } }

def labelledStore : Store := ⟨true, { Database.empty with devices := ⟨[deviceRow labelled], by decide⟩ }⟩

/-- The device was found online after it was woken. -/
def labelledAwake : Store :=
  (run .ascii labelledStore (quiet (.applyObservation labelled Observations.seenOnline true))).2

theorem awake_nas_unchanged :
    (∃ now ∈ labelledAwake.db.devices.rows, now.document ≠ labelled) ∧
      save .ascii labelledAwake (create labelled) = (.ok .saved, labelledAwake) := by
  have hreach : (repository .ascii).Reach labelledStore := ⟨_,
    Machine.runs_of_exec rfl (show (repository .ascii).exec _ [quiet (.saveDevice labelled)] = _ from rfl)⟩
  have hobserved : ObservedInto .ascii labelledStore labelledAwake :=
    Relation.ReflTransGen.single ⟨labelled, Observations.seenOnline, true, fun _ => .none, rfl⟩
  obtain ⟨-, -, -, -, -, hunchanged⟩ := unchanged_save_is_noop .ascii spacelessNames_ascii _ _ hreach hobserved
    (deviceRow labelled) (List.mem_singleton.mpr rfl)
  exact ⟨by decide, hunchanged (by decide)⟩

/-- A device with one tag, which has a comma. -/
def tagged : Device := { Identity.nasStored with tags := [str "attic,cold"] }

def taggedStore : Store := ⟨true, { Database.empty with devices := ⟨[deviceRow tagged], by decide⟩ }⟩

theorem tagged_save_splits : ¬ ∀ fw s row, SpacelessNames fw → (repository fw).Reach s → row ∈ s.db.devices.rows →
    (save fw s (create row.document)).1 = .ok .saved ∧ row ∈ (save fw s (create row.document)).2.db.devices.rows := by
  intro h
  have hreach : (repository .ascii).Reach taggedStore := ⟨_,
    Machine.runs_of_exec rfl (show (repository .ascii).exec _ [quiet (.saveDevice tagged)] = _ from rfl)⟩
  obtain ⟨-, hkept⟩ := h .ascii taggedStore (deviceRow tagged) spacelessNames_ascii hreach (List.mem_singleton.mpr rfl)
  have hsplit : (save .ascii taggedStore (create tagged)).2.db.devices.rows =
      [deviceRow { tagged with tags := [str "attic", str "cold"] }] := by decide +kernel
  rw [show (deviceRow tagged).document = tagged from rfl, hsplit] at hkept
  exact absurd (List.mem_singleton.mp hkept) (by decide)

end DeviceEditorViewModel

end MythLab.App
