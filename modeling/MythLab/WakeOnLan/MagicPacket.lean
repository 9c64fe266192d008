/-
  MythLab.WakeOnLan.MagicPacket — the packet that wakes a device.

  Proved (`create_ok_iff`): a packet is made exactly of a unicast address that is not all
  zeros, and it is six bytes of ones and sixteen copies of the address. What is stored
  with wake enabled has a unicast address, but the zero address is stored too: a stored
  device can be woken exactly when its address has a digit other than zero
  (`saved_wake_can_be_sent`).
-/
import MythLab.Devices.DeviceRules

namespace MythLab.WakeOnLan.MagicPacket

open Lib Dotnet Devices DeviceRules

/-- `bytes.CopyTo(packet, i)` -/
def copyTo (bytes : List UInt8) (packet : List UInt8) (i : Nat) : List UInt8 :=
  packet.take i ++ bytes ++ packet.drop (i + bytes.length)

def packet (mac : List UInt8) : List UInt8 :=
  let packet := copyTo (List.replicate 6 0xFF) (List.replicate 102 0) 0
  (List.range 16).foldl (fun packet i => copyTo mac packet (6 + i * 6)) packet

def create (macAddress : Str) : Except Exn (List UInt8) := do
  let normal ← MacAddress.normalize macAddress
  let mac := fromHexString (normal.filter (· != chr ':'))
  throwIf (mac.length ≠ 6 ∨ mac.headD 0 &&& 1 ≠ 0 ∨ mac.all (· == 0))
    (.argument "Wake-on-LAN requires a nonzero unicast MAC address.")
  pure (packet mac)

/-! ## The packet -/

/-- Synchronization bytes, then the address sixteen times. -/
def wakeBytes (mac : List UInt8) : List UInt8 := List.replicate 6 0xFF ++ (List.replicate 16 mac).flatten

theorem copyTo_append {bytes done hole rest : List UInt8} (h : hole.length = bytes.length) :
    copyTo bytes (done ++ (hole ++ rest)) done.length = done ++ bytes ++ rest := by
  unfold copyTo
  rw [List.take_left, ← List.append_assoc done, ← h, ← List.length_append, List.drop_left]

/-- After `n` copies the packet has them, and zeros where the others go. -/
theorem copies {mac : List UInt8} (h : mac.length = 6) : ∀ n ≤ 16,
    (List.range n).foldl (fun packet i => copyTo mac packet (6 + i * 6)) (List.replicate 6 0xFF ++ List.replicate 96 0) =
      List.replicate 6 0xFF ++ (List.replicate n mac).flatten ++ List.replicate (6 * (16 - n)) 0 := by
  intro n hn
  induction n with
  | zero => simp
  | succ n ih =>
    have hlength : (List.replicate 6 (0xFF : UInt8) ++ (List.replicate n mac).flatten).length = 6 + n * 6 := by
      simp [h]
      omega
    have hcopy : (List.replicate (n + 1) mac).flatten = (List.replicate n mac).flatten ++ mac := by
      rw [List.replicate_succ', List.flatten_append, List.flatten_singleton]
    have hzeros : List.replicate (6 * (16 - n)) (0 : UInt8) = List.replicate 6 0 ++ List.replicate (6 * (16 - (n + 1))) 0 := by
      rw [List.replicate_append_replicate]
      congr 1
      omega
    rw [List.range_succ, List.foldl_append, List.foldl_cons, List.foldl_nil, ih (by omega), hzeros, ← hlength,
      copyTo_append (by rw [List.length_replicate, h]), hcopy, List.append_assoc (List.replicate 6 0xFF) _ mac]

theorem packet_eq {mac : List UInt8} (h : mac.length = 6) : packet mac = wakeBytes mac := by
  have hcopies := copies h 16 (Nat.le_refl _)
  rw [Nat.sub_self, Nat.mul_zero, List.replicate_zero, List.append_nil] at hcopies
  exact hcopies

theorem wakeBytes_length {mac : List UInt8} (h : mac.length = 6) : (wakeBytes mac).length = 102 := by
  simp [wakeBytes, h]

/-- The address can be read back from the packet. -/
theorem wakeBytes_address {mac : List UInt8} (h : mac.length = 6) : ((wakeBytes mac).drop 6).take 6 = mac := by
  have hdrop : (wakeBytes mac).drop 6 = mac ++ (List.replicate 15 mac).flatten := by
    unfold wakeBytes
    rw [List.drop_left' (by simp), List.replicate_succ, List.flatten_cons]
  rw [hdrop, List.take_left' h]

/-- A packet is made of the bytes an address denotes, unless they are a group address or all
    zeros. -/
theorem create_ok_iff {v m : Str} (h : MacAddress.normalize v = .ok m) {p : List UInt8} : create m = .ok p ↔
    (firstByte m &&& 1 = 0 ∧ ∃ b ∈ MacAddress.denoted v, b ≠ 0) ∧ p = wakeBytes (MacAddress.denoted v) := by
  obtain ⟨-, hm⟩ := MacAddress.normalize_denoted h
  have hlength := MacAddress.denoted_length h
  have hbytes : fromHexString (m.filter (· != chr ':')) = MacAddress.denoted v := by
    rw [hm]
    exact MacAddress.bytesOf_format hlength
  have hall : ¬ (MacAddress.denoted v).all (· == 0) = true ↔ ∃ b ∈ MacAddress.denoted v, b ≠ 0 := by
    simp [List.all_eq_true]
  unfold create firstByte
  rw [MacAddress.normalize_normalize h, ok_bind]
  dsimp only
  rw [throwIf_bind_ok_iff, hbytes, not_or, not_or, not_not, not_not, hall, packet_eq hlength]
  exact ⟨fun ⟨⟨_, hfirst, hb⟩, hp⟩ => ⟨⟨hfirst, hb⟩, (Except.ok.inj hp).symm⟩,
    fun ⟨⟨hfirst, hb⟩, hp⟩ => ⟨⟨hlength, hfirst, hb⟩, by rw [hp]; rfl⟩⟩

/-! ## Stored devices -/

/-- A packet is made for the device: the bytes its address denotes, from which the address can be
    read back. -/
def CanBeSent (d n : Device) : Prop :=
  (MacAddress.denoted d.macAddress).length = 6 ∧ ∃ p, create n.macAddress = .ok p ∧
    p = List.replicate 6 0xFF ++ (List.replicate 16 (MacAddress.denoted d.macAddress)).flatten ∧ p.length = 102 ∧
      MacAddress.format ((p.drop 6).take 6) = n.macAddress

/-- A device that was stored with wake enabled can be woken exactly when its MAC address has a
    digit other than zero. -/
theorem saved_wake_can_be_sent {fw : Framework} {d n : Device} (h : normalizeAndValidate fw d = .ok n)
    (hwake : n.wake.capability ≠ .disabled) :
    CanBeSent d n ↔ ∃ c ∈ d.macAddress, isHexDigit c = true ∧ c ≠ chr '0' := by
  obtain ⟨ip, mac, broadcast, haccepted, rfl⟩ := normalizeAndValidate_ok_iff.mp h
  have hwake : d.wake.capability ≠ .disabled := hwake
  have hnormal : MacAddress.normalize d.macAddress = .ok mac := by
    have hmac := haccepted.macAddress
    unfold storedMac at hmac
    split at hmac
    · exact absurd (Except.ok.inj hmac).symm (haccepted.wakeMac hwake)
    · exact hmac
  obtain ⟨hcount, hm⟩ := MacAddress.normalize_denoted hnormal
  have hlength := MacAddress.denoted_length hnormal
  have hdigits : (∃ b ∈ MacAddress.denoted d.macAddress, b ≠ 0) ↔ ∃ c ∈ d.macAddress, isHexDigit c = true ∧ c ≠ chr '0' := by
    have hzero := MacAddress.fromHexString_zero_iff (d.macAddress.filter isHexDigit) 6 hcount
      fun c hc => (List.mem_filter.mp hc).2
    have hnot := not_congr hzero
    simpa [MacAddress.denoted, and_assoc] using hnot
  refine ⟨?_, ?_⟩
  · intro ⟨_, p, hp, _⟩
    exact hdigits.mp ((create_ok_iff hnormal).mp hp).1.2
  · intro hdigit
    refine ⟨hlength, wakeBytes (MacAddress.denoted d.macAddress), ?_, rfl, wakeBytes_length hlength, ?_⟩
    · exact (create_ok_iff hnormal).mpr ⟨⟨haccepted.unicast hwake, hdigits.mpr hdigit⟩, rfl⟩
    · rw [wakeBytes_address hlength]
      exact hm.symm

def desktop (macAddress : Str) : Device :=
  { id := 1, displayName := str "PC", hostname := str "pc", macAddress := macAddress, wake := { capability := .enabledUnverified } }

theorem desktop_can_be_woken : CanBeSent (desktop (str " 02-11-22-33-44-5f ")) (desktop (str "02:11:22:33:44:5F")) :=
  (@saved_wake_can_be_sent Framework.ascii (desktop (str " 02-11-22-33-44-5f ")) (desktop (str "02:11:22:33:44:5F"))
    (by decide +kernel) (by decide)).mpr ⟨chr '2', by decide, by decide, by decide⟩

/-- The zero address is stored with wake enabled, and no packet is made of it. -/
theorem zero_address_cannot_be_woken : ¬ ∀ (fw : Framework) (d n : Device), normalizeAndValidate fw d = .ok n →
    n.wake.capability ≠ .disabled → CanBeSent d n := by
  intro hclaim
  have hstored : normalizeAndValidate Framework.ascii (desktop (str "00:00:00:00:00:00")) =
      .ok (desktop (str "00:00:00:00:00:00")) := by decide +kernel
  obtain ⟨-, p, hp, -⟩ := hclaim _ _ _ hstored (by decide)
  have hthrows : create (str "00:00:00:00:00:00") =
      .error (.argument "Wake-on-LAN requires a nonzero unicast MAC address.") := by decide +kernel
  cases hthrows.symm.trans hp

end MythLab.WakeOnLan.MagicPacket
