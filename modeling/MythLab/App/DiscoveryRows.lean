/-
  MythLab.App.DiscoveryRows — the rows of the discovery page and the records reported so far.

  The rows show the last record of each address, in increasing order of the addresses, and
  the index by address is the list's (`Shows`). A record of a known address changes its row
  in place (`Shows.set`), any other one is inserted at its place (`Shows.insert`); what the
  handler does of a record is one of the two (`wp_showRecord`).
-/
import MythLab.App.DiscoveryViewModel
import MythLab.Lib.Increasing
import MythLab.Lib.Dictionary

namespace MythLab.App.DiscoveryViewModel

open Lib Lib.Eff Dotnet Devices Discovery Settings

variable {s t : State}

/-- The last record of an address. -/
def lastOf (records : List DiscoveredDevice) (address : Str) : Option DiscoveredDevice :=
  records.reverse.find? fun d => d.address = address

theorem lastOf_snoc (records : List DiscoveredDevice) (found : DiscoveredDevice) (address : Str) :
    lastOf (records ++ [found]) address = if found.address = address then some found else lastOf records address := by
  unfold lastOf
  rw [List.reverse_append, List.reverse_singleton, List.singleton_append, List.find?_cons]
  by_cases h : found.address = address
  · simp [h]
  · simp [h]

/-- The list holds the last record of each address that it has. -/
def Latest (devices records : List DiscoveredDevice) : Prop := ∀ d, d ∈ devices ↔ lastOf records d.address = some d

/-- A new record takes the place of the one of its address. -/
theorem Latest.replaced {devices records : List DiscoveredDevice} {old found : DiscoveredDevice}
    (h : Latest devices records) (hold : old ∈ devices) (haddress : old.address = found.address) :
    Latest (devices.map fun d => if d.address = found.address then found else d) (records ++ [found]) := by
  intro d
  rw [lastOf_snoc, List.mem_map]
  constructor
  · rintro ⟨e, he, rfl⟩
    split
    · rw [if_pos rfl]
    · rename_i hne
      rw [if_neg (Ne.symm hne)]
      exact (h e).mp he
  · split
    · intro hd
      obtain rfl := Option.some.inj hd
      exact ⟨old, hold, if_pos haddress⟩
    · rename_i hne
      intro hd
      exact ⟨d, (h d).mpr hd, if_neg (Ne.symm hne)⟩

/-- A record of an address that is new comes to the others. -/
theorem Latest.inserted {devices records : List DiscoveredDevice} {found : DiscoveredDevice}
    (h : Latest devices records) (habsent : ∀ d ∈ devices, d.address ≠ found.address) {place : Nat}
    (hplace : place ≤ devices.length) : Latest (devices.insertIdx place found) (records ++ [found]) := by
  intro d
  rw [List.mem_insertIdx hplace, lastOf_snoc, h]
  by_cases he : found.address = d.address
  · rw [if_pos he]
    constructor
    · rintro (rfl | hd)
      · rfl
      · exact absurd he.symm (habsent d ((h d).mpr hd))
    · exact fun hd => Or.inl (Option.some.inj hd).symm
  · rw [if_neg he]
    constructor
    · rintro (rfl | hd)
      · exact absurd rfl he
      · exact hd
    · exact Or.inr

/-! ## The rows -/

def State.device (s : State) (i : Nat) : Option DiscoveredDevice := (s.row i).map Row.device

/-- The list shows these devices: the last records of their addresses, in the order of the
    addresses; and the index finds exactly its rows. -/
structure Shows (s : State) (devices records : List DiscoveredDevice) : Prop where
  rows : s.results.map s.device = devices.map some
  increasing : ∃ ips : List UInt32, devices.map DiscoveredDevice.address = ips.map Ipv4Subnet.format ∧ ips.Pairwise (· < ·)
  last : ∀ d, d ∈ devices ↔ lastOf records d.address = some d
  index : ∀ address i, s.byAddress.lookup address = some i ↔
    i ∈ s.results ∧ ∃ d, s.device i = some d ∧ d.address = address

section Rows

variable {devices records : List DiscoveredDevice} {found : DiscoveredDevice} {i : Nat} {ip : UInt32}

theorem shown_eq (h : s.results.map s.device = devices.map some) : s.shown = devices := by
  have hmap : s.shown = (s.results.map s.device).filterMap id := by
    unfold State.shown
    rw [List.filterMap_map]
    rfl
  rw [hmap, h, List.filterMap_map]
  exact List.filterMap_some

/-- A row of the list shows one of its devices. -/
theorem Shows.device_of_mem (h : Shows s devices records) (hi : i ∈ s.results) : ∃ d ∈ devices, s.device i = some d := by
  have hin : s.device i ∈ devices.map some := h.rows ▸ List.mem_map_of_mem hi
  obtain ⟨d, hd, he⟩ := List.mem_map.mp hin
  exact ⟨d, hd, he.symm⟩

theorem Shows.row_of_mem (h : Shows s devices records) {d : DiscoveredDevice} (hd : d ∈ devices) :
    ∃ i ∈ s.results, s.device i = some d := by
  have hin : some d ∈ s.results.map s.device := h.rows ▸ List.mem_map_of_mem hd
  obtain ⟨i, hi, he⟩ := List.mem_map.mp hin
  exact ⟨i, hi, he⟩

/-- An address that is not in the index is that of no row. -/
theorem Shows.absent (h : Shows s devices records) {address : Str} (hnone : s.byAddress.lookup address = none) :
    ∀ d ∈ devices, d.address ≠ address := by
  intro d hd he
  obtain ⟨i, hi, hdevice⟩ := h.row_of_mem hd
  rw [(h.index address i).mpr ⟨hi, d, hdevice, he⟩] at hnone
  cases hnone

theorem Shows.nil (hresults : s.results = []) (hindex : s.byAddress = []) : Shows s [] [] := by
  refine ⟨by rw [hresults]; rfl, ⟨[], rfl, List.Pairwise.nil⟩, ?_, ?_⟩
  · exact fun d => ⟨fun hd => (by cases hd), fun hd => (by cases hd)⟩
  · intro address i
    rw [hresults, hindex]
    exact ⟨fun h => (by cases h), fun h => (by cases h.1)⟩

/-- The records of the rows and the index are the same. -/
structure SameRows (s t : State) : Prop where
  results : t.results = s.results
  byAddress : t.byAddress = s.byAddress
  device : t.device = s.device

theorem SameRows.refl (s : State) : SameRows s s := ⟨rfl, rfl, rfl⟩

theorem Shows.congr (h : Shows s devices records) (hst : SameRows s t) : Shows t devices records := by
  refine ⟨?_, h.increasing, h.last, ?_⟩
  · rw [hst.results, hst.device]
    exact h.rows
  · rw [hst.byAddress, hst.results, hst.device]
    exact h.index

theorem position_eq (ip : UInt32) {ips : List UInt32} {devices : List DiscoveredDevice}
    (h : devices.map DiscoveredDevice.address = ips.map Ipv4Subnet.format) : position ip devices = .ok (placeOf ip ips) := by
  induction devices generalizing ips with
  | nil =>
    obtain rfl := List.map_eq_nil_iff.mp h.symm
    rfl
  | cons d devices ih =>
    obtain ⟨other, ips, rfl, haddress, htail⟩ := List.map_eq_cons_iff.mp h.symm
    unfold position placeOf
    rw [← haddress, Ipv4Subnet.parse_format, ok_bind]
    split
    · rw [ih htail.symm]
      rfl
    · rfl

theorem device_setDevice {d : DiscoveredDevice} (hi : s.device i = some d) (found : DiscoveredDevice) (j : Nat) :
    (s.setDevice i found).device j = if j = i then some found else s.device j := by
  obtain ⟨row, hrow, -⟩ := Option.map_eq_some_iff.mp hi
  show ((s.rows.modify i _)[j]?).map Row.device = _
  rw [List.getElem?_modify]
  by_cases hj : j = i
  · subst hj
    have hrow : s.rows[j]? = some row := hrow
    simp [hrow]
  · rw [if_neg hj]
    simp only [if_neg (Ne.symm hj), Option.map_eq_map, Option.map_id']
    rfl

/-- Among the rows of the list one alone has the address. -/
theorem Shows.row_unique (h : Shows s devices records) {address : Str} (hi : s.byAddress.lookup address = some i) {j : Nat}
    (hj : j ∈ s.results) {d : DiscoveredDevice} (hd : s.device j = some d) : d.address = address ↔ j = i := by
  obtain ⟨-, old, hold, haddress⟩ := (h.index address i).mp hi
  constructor
  · intro he
    have hj := (h.index address j).mpr ⟨hj, d, hd, he⟩
    exact Option.some.inj (hj.symm.trans hi)
  · rintro rfl
    rw [← Option.some.inj (hold.symm.trans hd)]
    exact haddress

/-- The index finds the changed row by the address it had. -/
theorem Shows.index_set (h : Shows s devices records) (hi : s.byAddress.lookup found.address = some i) (address : Str)
    (j : Nat) : (s.setDevice i found).byAddress.lookup address = some j ↔
      j ∈ (s.setDevice i found).results ∧ ∃ d, (s.setDevice i found).device j = some d ∧ d.address = address := by
  obtain ⟨-, old, hold, haddress⟩ := (h.index found.address i).mp hi
  show s.byAddress.lookup address = some j ↔ j ∈ s.results ∧ _
  rw [h.index, device_setDevice hold]
  refine and_congr_right ?_
  intro hj
  by_cases hji : j = i
  · subst hji
    rw [if_pos rfl]
    constructor
    · rintro ⟨d, hd, rfl⟩
      obtain rfl := Option.some.inj (hold.symm.trans hd)
      exact ⟨found, rfl, haddress.symm⟩
    · rintro ⟨d, hd, rfl⟩
      obtain rfl := Option.some.inj hd
      exact ⟨old, hold, haddress⟩
  · rw [if_neg hji]

/-- The row of an address takes its new record. -/
theorem Shows.set (h : Shows s devices records) (hi : s.byAddress.lookup found.address = some i) :
    Shows (s.setDevice i found) (devices.map fun d => if d.address = found.address then found else d)
      (records ++ [found]) := by
  obtain ⟨hmem, old, hold, haddress⟩ := (h.index found.address i).mp hi
  refine ⟨?_, ?_, ?_, h.index_set hi⟩
  · have hmap : (devices.map fun d => if d.address = found.address then found else d).map some =
        (devices.map some).map (Option.map fun d => if d.address = found.address then found else d) := by
      rw [List.map_map, List.map_map]
      rfl
    rw [hmap, ← h.rows, List.map_map]
    refine List.map_congr_left ?_
    intro j hj
    obtain ⟨d, -, hd⟩ := h.device_of_mem hj
    rw [device_setDevice hold, Function.comp_apply, hd, Option.map_some]
    -- the other rows have other addresses
    simp only [h.row_unique hi hj hd]
    split
    · rfl
    · rfl
  · obtain ⟨ips, hips, hsorted⟩ := h.increasing
    refine ⟨ips, ?_, hsorted⟩
    rw [← hips, List.map_map]
    refine List.map_congr_left ?_
    intro d _
    simp only [Function.comp_apply]
    split
    · rename_i he
      exact he.symm
    · rfl
  · obtain ⟨d, hd, he⟩ := h.device_of_mem hmem
    obtain rfl := Option.some.inj (hold.symm.trans he)
    exact Latest.replaced h.last hd haddress

/-- A row is made, and put at a place of the list. -/
def State.insertRow (s : State) (found : DiscoveredDevice) (place : Nat) : State :=
  { s with
    rows := s.rows ++ [{ device := found }]
    byAddress := s.byAddress ++ [(found.address, s.rows.length)]
    results := s.results.insertIdx place s.rows.length }

theorem lt_of_device {d : DiscoveredDevice} (h : s.device i = some d) : i < s.rows.length := by
  obtain ⟨row, hrow, -⟩ := Option.map_eq_some_iff.mp h
  exact (List.getElem?_eq_some_iff.mp hrow).1

theorem Shows.new_row (h : Shows s devices records) : s.rows.length ∉ s.results := by
  intro hin
  obtain ⟨d, -, hd⟩ := h.device_of_mem hin
  exact Nat.lt_irrefl _ (lt_of_device hd)

theorem device_insertRow (s : State) (found : DiscoveredDevice) (place i : Nat) :
    (s.insertRow found place).device i = if i = s.rows.length then some found else s.device i := by
  show ((s.rows ++ [{ device := found }])[i]?).map Row.device = _
  split
  · rename_i he
    subst he
    rw [List.getElem?_concat_length]
    rfl
  · rename_i hne
    by_cases hlt : i < s.rows.length
    · rw [List.getElem?_append_left hlt]
      rfl
    · rw [List.getElem?_eq_none (by rw [List.length_append, List.length_singleton]; omega)]
      have hnone : s.rows[i]? = none := List.getElem?_eq_none (Nat.le_of_not_lt hlt)
      show none = (s.rows[i]?).map Row.device
      rw [hnone]
      rfl

theorem device_new_row (s : State) (found : DiscoveredDevice) (place : Nat) :
    (s.insertRow found place).device s.rows.length = some found := by
  rw [device_insertRow, if_pos rfl]

theorem Shows.device_old_row (h : Shows s devices records) (hi : i ∈ s.results) (found : DiscoveredDevice) (place : Nat) :
    (s.insertRow found place).device i = s.device i := by
  rw [device_insertRow, if_neg]
  rintro rfl
  exact h.new_row hi

/-- The index finds the new row by its address, and the others as before. -/
theorem Shows.index_insert (h : Shows s devices records) (hnone : s.byAddress.lookup found.address = none) {place : Nat}
    (hplace : place ≤ s.results.length) (address : Str) (i : Nat) :
    (s.insertRow found place).byAddress.lookup address = some i ↔
      i ∈ (s.insertRow found place).results ∧
        ∃ d, (s.insertRow found place).device i = some d ∧ d.address = address := by
  have habsent := h.absent hnone
  have hself := device_new_row s found place
  have hother {i : Nat} (hi : i ∈ s.results) := h.device_old_row hi found place
  show (s.byAddress ++ [(found.address, s.rows.length)]).lookup address = some i ↔
    i ∈ s.results.insertIdx place s.rows.length ∧ _
  rw [lookup_add hnone, List.mem_insertIdx hplace]
  by_cases he : address = found.address
  · subst he
    rw [if_pos rfl]
    constructor
    · intro hi
      obtain rfl := Option.some.inj hi
      exact ⟨Or.inl rfl, found, hself, rfl⟩
    · rintro ⟨rfl | hi, d, hd, haddress⟩
      · rfl
      · obtain ⟨d', hd', hdevice⟩ := h.device_of_mem hi
        obtain rfl := Option.some.inj (hd.symm.trans ((hother hi).trans hdevice))
        exact absurd haddress (habsent d hd')
  · rw [if_neg he, h.index]
    constructor
    · rintro ⟨hi, d, hd, haddress⟩
      exact ⟨Or.inr hi, d, (hother hi).trans hd, haddress⟩
    · rintro ⟨rfl | hi, d, hd, haddress⟩
      · obtain rfl := Option.some.inj (hself.symm.trans hd)
        exact absurd haddress.symm he
      · exact ⟨hi, d, (hother hi).symm.trans hd, haddress⟩

/-- The first record of an address makes a row at its place. -/
theorem Shows.insert (h : Shows s devices records) (hnone : s.byAddress.lookup found.address = none)
    (hfound : found.address = Ipv4Subnet.format ip) {ips : List UInt32}
    (hips : devices.map DiscoveredDevice.address = ips.map Ipv4Subnet.format) (hsorted : ips.Pairwise (· < ·)) :
    Shows (s.insertRow found (placeOf ip ips)) (devices.insertIdx (placeOf ip ips) found) (records ++ [found]) := by
  have habsent := h.absent hnone
  have hlength : ips.length = devices.length := by
    have hlengths := congrArg List.length hips
    rw [List.length_map, List.length_map] at hlengths
    exact hlengths.symm
  have hresults : s.results.length = devices.length := by
    have hlengths := congrArg List.length h.rows
    rwa [List.length_map, List.length_map] at hlengths
  have hplace : placeOf ip ips ≤ devices.length := hlength ▸ placeOf_le ip ips
  refine ⟨?_, ?_, ?_, ?_⟩
  · show (s.results.insertIdx (placeOf ip ips) s.rows.length).map _ = _
    rw [List.map_insertIdx, List.map_insertIdx, device_new_row, ← h.rows]
    rw [List.map_congr_left fun i hi => h.device_old_row hi found (placeOf ip ips)]
  · refine ⟨ips.insertIdx (placeOf ip ips) ip, ?_, increasing_insert hsorted ?_⟩
    · rw [List.map_insertIdx, List.map_insertIdx, hips, hfound]
    · intro hin
      have hmem : found.address ∈ devices.map DiscoveredDevice.address := by
        rw [hips, hfound]
        exact List.mem_map_of_mem hin
      obtain ⟨d, hd, he⟩ := List.mem_map.mp hmem
      exact habsent d hd he
  · exact Latest.inserted h.last habsent hplace
  · exact h.index_insert hnone (hresults ▸ hplace)

end Rows

/-! ## Showing a record -/

/-- What the handlers and the commands go by. -/
structure Control where
  phase : Phase
  isScanning : Bool
  scanGeneration : Nat
  handlers : List Nat
  cancelled : List Nat
  completed : Int

def State.control (s : State) : Control where
  phase := s.phase
  isScanning := s.isScanning
  scanGeneration := s.scanGeneration
  handlers := s.handlers
  cancelled := s.cancelled
  completed := s.completed

theorem wp_showRecord {devices records : List DiscoveredDevice} {found : DiscoveredDevice} {ip : UInt32}
    (h : Shows s devices records) (hfound : found.address = Ipv4Subnet.format ip) :
    (showRecord found).wp (fun _ t => (∃ devices', Shows t devices' (records ++ [found])) ∧ t.control = s.control) s := by
  unfold showRecord
  rw [wp_get_bind]
  rcases hlookup : s.byAddress.lookup found.address with _ | i
  · obtain ⟨ips, hips, hsorted⟩ := h.increasing
    show ((modify _ >>= fun _ => lift (Ipv4Subnet.parse found.address) >>= _) : Eff State Exn Nat).wp _ s
    rw [wp_modify_bind, hfound, Ipv4Subnet.parse_format, wp_lift_bind, wp_get_bind]
    -- the new row is in no list yet
    have hshown : State.shown { s with
        rows := s.rows ++ [{ device := found }], byAddress := s.byAddress ++ [(Ipv4Subnet.format ip, s.rows.length)] } =
          devices := by
      refine shown_eq ((List.map_congr_left ?_).trans h.rows)
      intro i hi
      refine (device_insertRow s found 0 i).trans (if_neg ?_)
      rintro rfl
      exact h.new_row hi
    rw [hshown, position_eq ip hips, wp_lift_bind, wp_modify_bind]
    have hinserted := h.insert hlookup hfound hips hsorted
    unfold State.insertRow at hinserted
    rw [hfound] at hinserted
    exact ⟨⟨_, hinserted⟩, rfl⟩
  · exact ⟨⟨_, h.set hlookup⟩, rfl⟩

end MythLab.App.DiscoveryViewModel
