/-
  MythLab.Devices.Device — a managed device, what an observation of it says, and when
  two records of a device are probed or woken in the same way (`DeviceTargets`).
-/
import MythLab.Dotnet.Framework

namespace MythLab.Devices

open Dotnet

inductive DeviceState where
  | unknown
  | online
  | offline
  | waking
  | undefined (value : Int)
  deriving DecidableEq, Repr

inductive DeviceType where
  | computer
  | server
  | virtualMachine
  | appliance
  | other
  | undefined (value : Int)
  deriving DecidableEq, Repr

inductive WakeCapability where
  | disabled
  | enabledUnverified
  | verified
  | undefined (value : Int)
  deriving DecidableEq, Repr

inductive StatusCheckKind where
  | icmp
  | tcp
  | undefined (value : Int)
  deriving DecidableEq, Repr

/-! `Enum.IsDefined`: an enum value may be a number without a name. -/

def DeviceState.isDefined : DeviceState → Bool
  | .undefined _ => false
  | _ => true

def DeviceType.isDefined : DeviceType → Bool
  | .undefined _ => false
  | _ => true

def WakeCapability.isDefined : WakeCapability → Bool
  | .undefined _ => false
  | _ => true

def StatusCheckKind.isDefined : StatusCheckKind → Bool
  | .undefined _ => false
  | _ => true

@[ext] structure WakeConfiguration where
  capability : WakeCapability := .disabled
  broadcastAddress : Str := []
  interfaceId : Str := []
  port : Int := 9
  packetCount : Int := 3
  delayMilliseconds : Int := 250
  retryCount : Int := 1
  retryDelayMilliseconds : Int := 1000
  deriving DecidableEq, Repr

@[ext] structure Device where
  id : Guid
  displayName : Str := []
  hostname : Str := []
  ipv4Address : Str := []
  macAddress : Str := []
  type : DeviceType := .computer
  group : Str := []
  notes : Str := []
  tags : List Str := []
  wake : WakeConfiguration := {}
  lastKnownState : DeviceState := .unknown
  lastChecked : Option DateTimeOffset := none
  lastSeen : Option DateTimeOffset := none
  statusCheck : StatusCheckKind := .icmp
  statusPort : Int := 22
  deriving DecidableEq, Repr

def Device.endpoint (d : Device) : Str := if isNullOrWhiteSpace d.hostname then d.ipv4Address else d.hostname

structure StatusObservation where
  state : DeviceState
  checkedAt : DateTimeOffset
  detail : Str := []
  deriving DecidableEq, Repr

namespace DeviceTargets

def sameStatus (a b : Device) : Bool :=
  a.hostname = b.hostname ∧ a.ipv4Address = b.ipv4Address ∧ a.macAddress = b.macAddress ∧
    a.statusCheck = b.statusCheck ∧ a.statusPort = b.statusPort

def sameWake (a b : Device) : Bool :=
  sameStatus a b ∧
    { a.wake with capability := .enabledUnverified } = { b.wake with capability := .enabledUnverified }

theorem sameStatus_iff {a b : Device} : sameStatus a b = true ↔
    a.hostname = b.hostname ∧ a.ipv4Address = b.ipv4Address ∧ a.macAddress = b.macAddress ∧
      a.statusCheck = b.statusCheck ∧ a.statusPort = b.statusPort := by
  simp [sameStatus]

theorem sameWake_iff {a b : Device} : sameWake a b = true ↔ sameStatus a b = true ∧
    { a.wake with capability := .enabledUnverified } = { b.wake with capability := .enabledUnverified } := by
  simp [sameWake]

@[simp] theorem sameStatus_self (a : Device) : sameStatus a a = true := by simp [sameStatus]

@[simp] theorem sameWake_self (a : Device) : sameWake a a = true := by simp [sameWake]

theorem sameStatus_trans {a b c : Device} (hab : sameStatus a b = true) (hbc : sameStatus b c = true) :
    sameStatus a c = true := by
  rw [sameStatus_iff] at *
  obtain ⟨h1, h2, h3, h4, h5⟩ := hab
  obtain ⟨k1, k2, k3, k4, k5⟩ := hbc
  exact ⟨h1.trans k1, h2.trans k2, h3.trans k3, h4.trans k4, h5.trans k5⟩

theorem sameStatus_comm (a b : Device) : sameStatus a b = sameStatus b a := by
  unfold sameStatus
  simp only [eq_comm]

theorem sameWake_comm (a b : Device) : sameWake a b = sameWake b a := by
  unfold sameWake
  rw [sameStatus_comm, decide_eq_decide]
  exact and_congr_right fun _ => eq_comm

theorem sameWake_trans {a b c : Device} (hab : sameWake a b = true) (hbc : sameWake b c = true) :
    sameWake a c = true := by
  rw [sameWake_iff] at *
  exact ⟨sameStatus_trans hab.1 hbc.1, hab.2.trans hbc.2⟩

end DeviceTargets

end MythLab.Devices
