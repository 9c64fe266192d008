/-
  MythLab.Discovery.DiscoveryModels — what a scan is asked for and what it finds.

  `merge` is what publishing a record over an older one of the same address stores; a
  record only grows by it (`grows_merge`).
-/
import MythLab.Discovery.Ipv4Subnet
import MythLab.Devices.MacAddress

namespace MythLab.Discovery

open Lib Dotnet Devices

structure LocalNetworkInterface where
  id : Str
  index : Int
  address : Str
  mask : Str
  macAddress : Str
  deriving DecidableEq, Repr

def LocalNetworkInterface.subnet (n : LocalNetworkInterface) : Except Exn Ipv4Subnet := Ipv4Subnet.create n.address n.mask

/-- The flags of `DiscoveryEvidence`. -/
structure Evidence where
  neighborCache : Bool := false
  arpResolution : Bool := false
  pingReply : Bool := false
  localInterface : Bool := false
  deriving DecidableEq, Repr

namespace Evidence

def none : Evidence := {}

/-- `a | b` -/
def union (a b : Evidence) : Evidence where
  neighborCache := a.neighborCache || b.neighborCache
  arpResolution := a.arpResolution || b.arpResolution
  pingReply := a.pingReply || b.pingReply
  localInterface := a.localInterface || b.localInterface

/-- Every flag of `a` is one of `b`. -/
def within (a b : Evidence) : Prop := a.union b = b

theorem none_union (a : Evidence) : none.union a = a := by simp [union, none]

theorem union_none (a : Evidence) : a.union none = a := by simp [union, none]

theorem union_self (a : Evidence) : a.union a = a := by simp [union]

theorem union_comm (a b : Evidence) : a.union b = b.union a := by simp [union, Bool.or_comm]

theorem union_assoc (a b c : Evidence) : (a.union b).union c = a.union (b.union c) := by simp [union, Bool.or_assoc]

theorem union_eq_none {a b : Evidence} : a.union b = none ↔ a = none ∧ b = none := by
  obtain ⟨a1, a2, a3, a4⟩ := a
  obtain ⟨b1, b2, b3, b4⟩ := b
  simp only [union, none, mk.injEq, Bool.or_eq_false_iff]
  tauto

theorem within_self (a : Evidence) : a.within a := by simp [within, union]

theorem within_union_left (a b : Evidence) : a.within (a.union b) := by simp [within, union]

theorem within_trans {a b c : Evidence} (hab : a.within b) (hbc : b.within c) : a.within c := by
  unfold within at *
  rw [← hbc, ← hab]
  simp [union, Bool.or_assoc]

end Evidence

structure DiscoveredDevice where
  address : Str
  macAddress : Str := []
  hostname : Str := []
  vendor : Str := []
  evidence : Evidence := .none
  lastLiveObservationAt : Option DateTimeOffset := none
  deriving DecidableEq, Repr

namespace DiscoveredDevice

def isOnline (d : DiscoveredDevice) : Bool := d.evidence.pingReply || d.evidence.localInterface

/-- `a.Length > 0 ? a : b` -/
def orElse (a b : Str) : Str := if a.length > 0 then a else b

/-- The update of `AddOrUpdate`: `device` published over `old`. -/
def merge (device old : DiscoveredDevice) : DiscoveredDevice :=
  { device with
    evidence := old.evidence.union device.evidence
    hostname := orElse device.hostname old.hostname
    macAddress := orElse device.macAddress old.macAddress
    vendor := orElse device.vendor old.vendor
    lastLiveObservationAt := device.lastLiveObservationAt.or old.lastLiveObservationAt }

/-- `b` knows of the address all that `a` did. -/
structure Grows (a b : DiscoveredDevice) : Prop where
  evidence : a.evidence.within b.evidence
  macAddress : a.macAddress ≠ [] → b.macAddress ≠ []
  hostname : a.hostname ≠ [] → b.hostname ≠ []
  vendor : a.vendor ≠ [] → b.vendor ≠ []
  live : a.lastLiveObservationAt ≠ none → b.lastLiveObservationAt ≠ none

theorem Grows.refl (a : DiscoveredDevice) : Grows a a := ⟨Evidence.within_self _, id, id, id, id⟩

theorem Grows.trans {a b c : DiscoveredDevice} (hab : Grows a b) (hbc : Grows b c) : Grows a c :=
  ⟨Evidence.within_trans hab.evidence hbc.evidence, fun h => hbc.macAddress (hab.macAddress h),
    fun h => hbc.hostname (hab.hostname h), fun h => hbc.vendor (hab.vendor h), fun h => hbc.live (hab.live h)⟩

theorem Grows.online {a b : DiscoveredDevice} (h : Grows a b) (ha : a.isOnline = true) : b.isOnline = true := by
  have he := h.evidence
  unfold Evidence.within Evidence.union at he
  unfold isOnline at ha ⊢
  rw [← he]
  simp only [Bool.or_eq_true] at ha ⊢
  rcases ha with ha | ha <;> simp [ha]

theorem orElse_ne_nil {a b : Str} (h : b ≠ []) : orElse a b ≠ [] := by
  unfold orElse
  split
  · exact List.ne_nil_of_length_pos ‹_›
  · exact h

theorem grows_merge (device old : DiscoveredDevice) : Grows old (merge device old) := by
  refine ⟨Evidence.within_union_left _ _, orElse_ne_nil, orElse_ne_nil, orElse_ne_nil, ?_⟩
  intro h
  unfold merge
  cases hd : device.lastLiveObservationAt with
  | none => simpa [hd] using h
  | some t => simp

end DiscoveredDevice

structure NeighborEntry where
  interfaceIndex : Int
  address : Str
  macAddress : Str
  deriving DecidableEq, Repr

structure DiscoveryUpdate where
  completed : Int
  total : Int
  device : Option DiscoveredDevice := none
  diagnostic : Option Str := none
  deriving DecidableEq, Repr

structure DiscoverySummary where
  scanned : Int
  found : Int
  deriving DecidableEq, Repr

structure DiscoveryRequest where
  interface : LocalNetworkInterface
  startAddress : Str
  endAddress : Str
  concurrency : Int := 32
  timeoutMilliseconds : Int := 750
  deriving DecidableEq, Repr

structure AddressRange where
  first : UInt32
  last : UInt32
  count : Nat
  deriving DecidableEq, Repr

namespace DiscoveryRequest

def maximumAddresses : Nat := 4096

def validate (r : DiscoveryRequest) : Except Exn AddressRange := do
  throwIf (r.concurrency < 1 ∨ r.concurrency > 64 ∨ r.timeoutMilliseconds < 100 ∨ r.timeoutMilliseconds > 10000)
    (.argument "Use concurrency 1–64 and a probe timeout of 100–10000 ms.")
  let first ← Ipv4Subnet.parse r.startAddress
  let last ← Ipv4Subnet.parse r.endAddress
  throwIf (last < first) (.argument "The end address must not precede the start address.")
  let subnet ← Ipv4Subnet.create r.interface.address r.interface.mask
  throwIf (¬ subnet.containsHost first ∨ ¬ subnet.containsHost last)
    (.argument "Scan addresses must be usable hosts on the selected interface's subnet.")
  let count := last.toNat - first.toNat + 1
  throwIf (count > maximumAddresses) (.argument "Select a smaller range (at most 4096 addresses per scan).")
  pure ⟨first, last, count⟩

theorem validate_ok {r : DiscoveryRequest} {range : AddressRange} (h : r.validate = .ok range) :
    1 ≤ r.concurrency ∧ range.first ≤ range.last ∧ range.count = range.last.toNat - range.first.toNat + 1 ∧
      range.count ≤ maximumAddresses := by
  obtain ⟨hlimits, h⟩ := throwIf_bind_ok_iff.mp h
  obtain ⟨first, -, h⟩ := bind_ok_iff.mp h
  obtain ⟨last, -, h⟩ := bind_ok_iff.mp h
  obtain ⟨horder, h⟩ := throwIf_bind_ok_iff.mp h
  obtain ⟨subnet, -, h⟩ := bind_ok_iff.mp h
  obtain ⟨-, h⟩ := throwIf_bind_ok_iff.mp h
  obtain ⟨hcount, h⟩ := throwIf_bind_ok_iff.mp h
  cases h
  refine ⟨by omega, ?_, rfl, Nat.le_of_not_gt hcount⟩
  rw [UInt32.lt_iff_toNat_lt] at horder
  rw [UInt32.le_iff_toNat_le]
  exact Nat.le_of_not_lt horder

end DiscoveryRequest

end MythLab.Discovery
