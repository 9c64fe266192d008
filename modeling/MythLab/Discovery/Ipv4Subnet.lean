/-
  MythLab.Discovery.Ipv4Subnet — dotted IPv4 addresses and the subnet of an interface.

  An address is a 32-bit number. `parse_format`: the text of a number parses to it, so no
  two numbers have one text (`format_inj`).
-/
import MythLab.Lib.Effect
import MythLab.Dotnet.Framework

namespace MythLab.Discovery

open Lib Dotnet

namespace Ipv4Subnet

/-! ## Addresses -/

/-- A part of a dotted address that is not accepted. -/
def badPart (p : Str) : Bool := p.length < 1 || p.length > 3 || !p.all isAsciiDigit || !isByte p

def parse (address : Str) : Except Exn UInt32 := do
  let parts := split (chr '.') (trim address)
  throwIf (parts.length ≠ 4 ∨ parts.any badPart) (.argument "Enter a valid dotted IPv4 address.")
  pure (UInt32.ofNat (parts.foldl (fun n p => 256 * n + parseDecimal p) 0))

/-- The four bytes of an address, the highest first. -/
def octets (address : UInt32) : List Nat :=
  let n := address.toNat
  [n / 16777216 % 256, n / 65536 % 256, n / 256 % 256, n % 256]

def format (address : UInt32) : Str := join [chr '.'] ((octets address).map decimal)

/-! ## Subnets -/

/-- `BitOperations.PopCount` -/
def popCount (bits : UInt32) : Nat := ((List.range 32).filter fun i => bits.toNat.testBit i).length

end Ipv4Subnet

structure Ipv4Subnet where
  network : UInt32
  broadcast : UInt32
  prefixLength : Nat
  deriving DecidableEq, Repr

namespace Ipv4Subnet

/-- The constructor. -/
def create (address mask : Str) : Except Exn Ipv4Subnet := do
  let ip ← parse address
  let bits ← parse mask
  let inverse := ~~~bits
  throwIf (inverse.toNat &&& (inverse.toNat + 1) ≠ 0) (.argument "The interface subnet mask is not contiguous.")
  pure { network := ip &&& bits, broadcast := (ip &&& bits) ||| inverse, prefixLength := popCount bits }

def firstHost (s : Ipv4Subnet) : UInt32 := if s.prefixLength ≥ 31 then s.network else s.network + 1

def lastHost (s : Ipv4Subnet) : UInt32 := if s.prefixLength ≥ 31 then s.broadcast else s.broadcast - 1

def containsHost (s : Ipv4Subnet) (address : UInt32) : Bool := address ≥ s.firstHost && address ≤ s.lastHost

/-! ## The text of an address -/

theorem decimal_checked : ∀ n < 256, badPart (decimal n) = false ∧ parseDecimal (decimal n) = n ∧
    (decimal n).all (fun c => c ≠ chr '.' ∧ isWhiteSpace c = false) = true := by
  decide +kernel

theorem decimal_spec (n : Nat) (h : n < 256) : badPart (decimal n) = false ∧ parseDecimal (decimal n) = n ∧
    ∀ c ∈ decimal n, c ≠ chr '.' ∧ isWhiteSpace c = false := by
  obtain ⟨hgood, hvalue, hall⟩ := decimal_checked n h
  exact ⟨hgood, hvalue, fun c hc => of_decide_eq_true (List.all_eq_true.mp hall c hc)⟩

theorem octets_lt {address : UInt32} {n : Nat} (h : n ∈ octets address) : n < 256 := by
  simp only [octets, List.mem_cons, List.not_mem_nil, or_false] at h
  omega

theorem split_format (address : UInt32) : split (chr '.') (format address) = (octets address).map decimal := by
  refine List.splitOn_intercalate _ ?_ (by simp [octets])
  intro part hpart hdot
  obtain ⟨n, hn, rfl⟩ := List.mem_map.mp hpart
  exact ((decimal_spec n (octets_lt hn)).2.2 _ hdot).1 rfl

theorem join_four (a b c d : Str) :
    join [chr '.'] [a, b, c, d] = a ++ chr '.' :: (b ++ chr '.' :: (c ++ chr '.' :: d)) := by simp [join]

theorem format_no_space (address : UInt32) : ∀ c ∈ format address, isWhiteSpace c = false := by
  have hoctet : ∀ n ∈ octets address, ∀ c ∈ decimal n, isWhiteSpace c = false :=
    fun n hn c hc => ((decimal_spec n (octets_lt hn)).2.2 c hc).2
  intro c hc
  simp only [format, octets, List.map_cons, List.map_nil, join_four, List.mem_append, List.mem_cons] at hc
  rcases hc with hc | rfl | hc | rfl | hc | rfl | hc
  · exact hoctet _ (by simp [octets]) c hc
  · decide
  · exact hoctet _ (by simp [octets]) c hc
  · decide
  · exact hoctet _ (by simp [octets]) c hc
  · decide
  · exact hoctet _ (by simp [octets]) c hc

theorem trim_format (address : UInt32) : trim (format address) = format address := by
  refine trim_of_ends ?_ ?_
  · intro c hc
    exact format_no_space address c (List.mem_of_mem_head? hc)
  · intro c hc
    exact format_no_space address c (List.mem_of_mem_getLast? hc)

theorem parse_format (address : UInt32) : parse (format address) = .ok address := by
  unfold parse
  rw [trim_format, split_format]
  refine throwIf_bind_ok_iff.mpr ⟨?_, ?_⟩
  · rintro (hlen | hbad)
    · simp [octets] at hlen
    · obtain ⟨part, hpart, hbad⟩ := List.any_eq_true.mp hbad
      obtain ⟨n, hn, rfl⟩ := List.mem_map.mp hpart
      rw [(decimal_spec n (octets_lt hn)).1] at hbad
      cases hbad
  · have hvalue : ∀ n < 256, parseDecimal (decimal n) = n := fun n hn => (decimal_spec n hn).2.1
    have hlt := address.toNat_lt
    have hnumber : ((octets address).map decimal).foldl (fun n p => 256 * n + parseDecimal p) 0 = address.toNat := by
      simp only [octets, List.map_cons, List.map_nil, List.foldl_cons, List.foldl_nil]
      rw [hvalue _ (by omega), hvalue _ (by omega), hvalue _ (by omega), hvalue _ (by omega)]
      omega
    rw [hnumber, UInt32.ofNat_toNat]
    rfl

theorem format_inj {a b : UInt32} (h : format a = format b) : a = b :=
  Except.ok.inj ((parse_format a).symm.trans ((congrArg parse h).trans (parse_format b)))

end Ipv4Subnet

end MythLab.Discovery
