/-
  MythLab.Discovery.ScanRange — the subnet of an interface and the range of a request, as
  sets of addresses.

  A subnet with `p` leading ones is an aligned block of `2 ^ (32 - p)` addresses, and all
  32-bit sums and differences on it are the ones of its numbers (`create_spans`,
  `create_ok_iff`). The addresses of an accepted request are the first and the ones counted
  from it, without a wrap (`validate_covers`).
-/
import MythLab.Discovery.DiscoveryModels
import MythLab.Lib.Masks

namespace MythLab.Discovery

open Lib Dotnet

namespace Ipv4Subnet

/-- `HostCount`, a `ulong` -/
def hostCount (s : Ipv4Subnet) : UInt64 := s.lastHost.toUInt64 - s.firstHost.toUInt64 + 1

def cidr (s : Ipv4Subnet) : Str := format s.network ++ str "/" ++ decimal s.prefixLength

/-- A mask of `p` ones and the rest zeros. -/
def IsMask (p : Nat) (mask : UInt32) : Prop := p ≤ 32 ∧ mask.toNat = 2 ^ 32 - 2 ^ (32 - p)

/-- The subnet of an address with a mask of `p` ones. -/
structure Spans (s : Ipv4Subnet) (ip : UInt32) (p : Nat) : Prop where
  prefixLength : s.prefixLength = p
  network_le : s.network ≤ ip
  le_broadcast : ip ≤ s.broadcast
  size : s.broadcast.toNat - s.network.toNat + 1 = 2 ^ (32 - p)
  hosts : s.firstHost ≤ s.lastHost
  hostCount : s.hostCount.toNat = if p ≤ 30 then 2 ^ (32 - p) - 2 else if p = 31 then 2 else 1

section Arithmetic

variable {ip mask : UInt32} {p : Nat}

theorem toNat_not (mask : UInt32) : (~~~mask).toNat = 2 ^ 32 - 1 - mask.toNat := by
  rw [UInt32.toNat_not]
  rfl

/-- The test of the constructor is passed by the masks and by nothing else. -/
theorem and_inverse_eq_zero : (~~~mask).toNat &&& ((~~~mask).toNat + 1) = 0 ↔ ∃ p, IsMask p mask := by
  have hlt : mask.toNat < 2 ^ 32 := mask.toNat_lt
  rw [and_succ_eq_zero, toNat_not]
  constructor
  · rintro ⟨k, hk⟩
    have hk32 : k ≤ 32 := by
      by_contra hgt
      have hpow : 2 ^ 33 ≤ 2 ^ k := Nat.pow_le_pow_right (by omega) (by omega)
      omega
    refine ⟨32 - k, Nat.sub_le 32 k, ?_⟩
    rw [Nat.sub_sub_self hk32]
    omega
  · rintro ⟨p, hp, hmask⟩
    have hpow : 2 ^ (32 - p) ≤ 2 ^ 32 := Nat.pow_le_pow_right (by omega) (Nat.sub_le 32 p)
    exact ⟨32 - p, by omega⟩

theorem IsMask.popCount (h : IsMask p mask) : popCount mask = p := by
  unfold Ipv4Subnet.popCount
  rw [h.2]
  refine (count_mask (Nat.sub_le 32 p)).trans ?_
  exact Nat.sub_sub_self h.1

theorem IsMask.network (h : IsMask p mask) : (ip &&& mask).toNat = block (32 - p) ip.toNat := by
  rw [UInt32.toNat_and, h.2]
  exact and_mask ip.toNat_lt (Nat.sub_le 32 p)

theorem IsMask.broadcast (h : IsMask p mask) :
    ((ip &&& mask) ||| ~~~mask).toNat = block (32 - p) ip.toNat + (2 ^ (32 - p) - 1) := by
  have hpow : 2 ^ (32 - p) ≤ 2 ^ 32 := Nat.pow_le_pow_right (by omega) (Nat.sub_le 32 p)
  have hinverse : (~~~mask).toNat = 2 ^ (32 - p) - 1 := by
    rw [toNat_not, h.2]
    omega
  rw [UInt32.toNat_or, h.network, hinverse, block_or_low]

end Arithmetic

variable {address mask : Str} {ip bits : UInt32} {p : Nat} {s : Ipv4Subnet}

theorem create_eq (hip : parse address = .ok ip) (hbits : parse mask = .ok bits) (h : ∃ p, IsMask p bits) :
    create address mask =
      .ok { network := ip &&& bits, broadcast := (ip &&& bits) ||| ~~~bits, prefixLength := popCount bits } := by
  unfold create
  rw [hip, ok_bind, hbits, ok_bind]
  exact throwIf_bind_ok_iff.mpr ⟨not_not.mpr (and_inverse_eq_zero.mpr h), rfl⟩

theorem create_ok_iff (hip : parse address = .ok ip) (hbits : parse mask = .ok bits) :
    (∃ s, create address mask = .ok s) ↔ ∃ p, IsMask p bits := by
  constructor
  · rintro ⟨s, h⟩
    unfold create at h
    rw [hip, ok_bind, hbits, ok_bind] at h
    exact and_inverse_eq_zero.mp (not_not.mp (throwIf_bind_ok_iff.mp h).1)
  · exact fun h => ⟨_, create_eq hip hbits h⟩

theorem toNat_hostCount (h : s.firstHost ≤ s.lastHost) : s.hostCount.toNat = s.lastHost.toNat - s.firstHost.toNat + 1 := by
  have hlast : s.lastHost.toNat < 4294967296 := s.lastHost.toNat_lt
  unfold hostCount
  rw [UInt64.toNat_add, UInt64.toNat_sub_of_le, UInt32.toNat_toUInt64, UInt32.toNat_toUInt64]
  · exact Nat.mod_eq_of_lt (by simp; omega)
  · rwa [UInt64.le_iff_toNat_le, UInt32.toNat_toUInt64, UInt32.toNat_toUInt64, ← UInt32.le_iff_toNat_le]

/-- The first and the last usable host of a subnet of `2 ^ (32 - p)` addresses. -/
theorem hosts_of_size (hsize : s.broadcast.toNat + 1 = s.network.toNat + 2 ^ (32 - p)) (hp : p ≤ 32)
    (hfront : s.prefixLength = p) :
    s.firstHost.toNat ≤ s.lastHost.toNat ∧
      s.lastHost.toNat - s.firstHost.toNat + 1 = if p ≤ 30 then 2 ^ (32 - p) - 2 else if p = 31 then 2 else 1 := by
  have hbroadcast : s.broadcast.toNat < 4294967296 := s.broadcast.toNat_lt
  unfold firstHost lastHost
  rw [hfront]
  by_cases hwide : p ≤ 30
  · -- at least four addresses: the first and the last one are no hosts
    have hpow : 2 ^ 2 ≤ 2 ^ (32 - p) := Nat.pow_le_pow_right (by omega) (by omega)
    have hfirst : (s.network + 1).toNat = s.network.toNat + 1 := by
      rw [UInt32.toNat_add, UInt32.toNat_one]
      exact Nat.mod_eq_of_lt (by omega)
    have hlast : (s.broadcast - 1).toNat = s.broadcast.toNat - 1 := by
      refine UInt32.toNat_sub_of_le _ _ ?_
      rw [UInt32.le_iff_toNat_le, UInt32.toNat_one]
      omega
    rw [if_neg (by omega), if_neg (by omega), if_pos hwide, hfirst, hlast]
    omega
  · rw [if_pos (by omega), if_pos (by omega), if_neg hwide]
    by_cases hpair : p = 31
    · subst hpair
      rw [if_pos rfl]
      omega
    · obtain rfl : p = 32 := by omega
      rw [if_neg hpair]
      omega

theorem create_spans (hip : parse address = .ok ip) (hbits : parse mask = .ok bits) (hmask : IsMask p bits)
    (h : create address mask = .ok s) : s.Spans ip p := by
  have hs := Except.ok.inj ((create_eq hip hbits ⟨p, hmask⟩).symm.trans h)
  have hfront : s.prefixLength = p := by
    rw [← hs]
    exact hmask.popCount
  have hnetwork : s.network.toNat = block (32 - p) ip.toNat := by
    rw [← hs]
    exact hmask.network
  have hbroadcast : s.broadcast.toNat = block (32 - p) ip.toNat + (2 ^ (32 - p) - 1) := by
    rw [← hs]
    exact hmask.broadcast
  have hpos := Nat.two_pow_pos (32 - p)
  have hbelow : block (32 - p) ip.toNat ≤ ip.toNat := block_le
  have habove : ip.toNat < block (32 - p) ip.toNat + 2 ^ (32 - p) := lt_block_add
  obtain ⟨hhosts, hcount⟩ := hosts_of_size (p := p) (by omega) hmask.1 hfront
  rw [← UInt32.le_iff_toNat_le] at hhosts
  refine ⟨hfront, ?_, ?_, by omega, hhosts, (toNat_hostCount hhosts).trans hcount⟩
  · rw [UInt32.le_iff_toNat_le]
    omega
  · rw [UInt32.le_iff_toNat_le]
    omega

theorem containsHost_iff {address : UInt32} : s.containsHost address = true ↔ s.firstHost ≤ address ∧ address ≤ s.lastHost := by
  unfold containsHost
  rw [Bool.and_eq_true, decide_eq_true_eq, decide_eq_true_eq]

end Ipv4Subnet

/-! ## Requests -/

/-- The address that the worker of an offset scans. -/
def AddressRange.address (range : AddressRange) (offset : Nat) : UInt32 := range.first + UInt32.ofNat offset

namespace DiscoveryRequest

variable {r : DiscoveryRequest} {range : AddressRange}

/-- The limits on what a scan may do at a time. -/
def WithinLimits (r : DiscoveryRequest) : Prop :=
  (1 ≤ r.concurrency ∧ r.concurrency ≤ 64) ∧ 100 ≤ r.timeoutMilliseconds ∧ r.timeoutMilliseconds ≤ 10000

/-- `range` is from the first to the last address of the request, both usable hosts. -/
structure Accepts (r : DiscoveryRequest) (range : AddressRange) : Prop where
  limits : r.WithinLimits
  first : Ipv4Subnet.parse r.startAddress = .ok range.first
  last : Ipv4Subnet.parse r.endAddress = .ok range.last
  ordered : range.first ≤ range.last
  hosts : ∃ s, r.interface.subnet = .ok s ∧ s.containsHost range.first = true ∧ s.containsHost range.last = true
  count : range.count = range.last.toNat - range.first.toNat + 1
  few : range.count ≤ maximumAddresses

theorem validate_ok_iff : r.validate = .ok range ↔ r.Accepts range := by
  constructor
  · intro h
    obtain ⟨hlimits, h⟩ := throwIf_bind_ok_iff.mp h
    obtain ⟨first, hfirst, h⟩ := bind_ok_iff.mp h
    obtain ⟨last, hlast, h⟩ := bind_ok_iff.mp h
    obtain ⟨hordered, h⟩ := throwIf_bind_ok_iff.mp h
    obtain ⟨s, hs, h⟩ := bind_ok_iff.mp h
    obtain ⟨hhosts, h⟩ := throwIf_bind_ok_iff.mp h
    obtain ⟨hfew, h⟩ := throwIf_bind_ok_iff.mp h
    cases h
    rw [not_or, not_not, not_not] at hhosts
    exact ⟨⟨by omega, by omega⟩, hfirst, hlast, UInt32.not_lt.mp hordered, ⟨s, hs, hhosts⟩, rfl, Nat.le_of_not_gt hfew⟩
  · rintro ⟨⟨hconcurrency, htimeout⟩, hfirst, hlast, hordered, ⟨s, hs, hhosts⟩, hcount, hfew⟩
    refine throwIf_bind_ok_iff.mpr ⟨by omega, ?_⟩
    rw [hfirst, ok_bind, hlast, ok_bind]
    refine throwIf_bind_ok_iff.mpr ⟨UInt32.not_lt.mpr hordered, ?_⟩
    refine bind_ok_iff.mpr ⟨s, hs, throwIf_bind_ok_iff.mpr ⟨?_, throwIf_bind_ok_iff.mpr ⟨?_, ?_⟩⟩⟩
    · rw [not_or, not_not, not_not]
      exact hhosts
    · rw [← hcount]
      exact Nat.not_lt.mpr hfew
    · rw [← hcount]
      rfl

/-- The offsets of an accepted request enumerate the addresses from the first to the last. -/
structure Covers (r : DiscoveryRequest) (range : AddressRange) : Prop where
  first : Ipv4Subnet.parse r.startAddress = .ok range.first
  last : Ipv4Subnet.parse r.endAddress = .ok range.last
  count : range.count = range.last.toNat - range.first.toNat + 1
  some : 1 ≤ range.count
  few : range.count ≤ 4096
  /-- No sum wraps. -/
  address : ∀ offset < range.count, (range.address offset).toNat = range.first.toNat + offset
  within : ∀ offset < range.count, range.first ≤ range.address offset ∧ range.address offset ≤ range.last
  once : ∀ address, range.first ≤ address → address ≤ range.last →
    ∃! offset, offset < range.count ∧ range.address offset = address
  usable : ∃ s, r.interface.subnet = .ok s ∧ ∀ offset < range.count, s.containsHost (range.address offset) = true

theorem validate_covers (h : r.validate = .ok range) : r.Covers range := by
  obtain ⟨-, hfirst, hlast, hordered, ⟨s, hs, hlow, hhigh⟩, hcount, hfew⟩ := validate_ok_iff.mp h
  have hmax : range.last.toNat < 4294967296 := range.last.toNat_lt
  rw [UInt32.le_iff_toNat_le] at hordered
  have haddress : ∀ offset < range.count, (range.address offset).toNat = range.first.toNat + offset := by
    intro offset hoffset
    have hsmall : (UInt32.ofNat offset).toNat = offset := UInt32.toNat_ofNat_of_lt' (Nat.lt_of_le_of_lt (by omega) hmax)
    unfold AddressRange.address
    rw [UInt32.toNat_add, hsmall]
    exact Nat.mod_eq_of_lt (by omega)
  have hwithin : ∀ offset < range.count, range.first ≤ range.address offset ∧ range.address offset ≤ range.last := by
    intro offset hoffset
    rw [UInt32.le_iff_toNat_le, UInt32.le_iff_toNat_le, haddress offset hoffset]
    omega
  refine ⟨hfirst, hlast, hcount, by omega, hfew, haddress, hwithin, ?_, s, hs, ?_⟩
  · intro address hge hle
    rw [UInt32.le_iff_toNat_le] at hge hle
    have hoffset : address.toNat - range.first.toNat < range.count := by omega
    refine ⟨address.toNat - range.first.toNat, ⟨hoffset, ?_⟩, ?_⟩
    · apply UInt32.toNat_inj.mp
      rw [haddress _ hoffset]
      omega
    · rintro offset ⟨hlt, rfl⟩
      rw [haddress offset hlt]
      omega
  · intro offset hoffset
    obtain ⟨hge, hle⟩ := hwithin offset hoffset
    obtain ⟨hfirstHost, -⟩ := Ipv4Subnet.containsHost_iff.mp hlow
    obtain ⟨-, hlastHost⟩ := Ipv4Subnet.containsHost_iff.mp hhigh
    exact Ipv4Subnet.containsHost_iff.mpr ⟨UInt32.le_trans hfirstHost hge, UInt32.le_trans hle hlastHost⟩

end DiscoveryRequest

end MythLab.Discovery
