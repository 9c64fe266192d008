/-
  MythLab.Storage.Schema — a database file as a migration sees it: its user version, its
  tables and indexes, and its rows; and the statements of the migration to version 1.

  A statement succeeds or fails (`execute`), and a batch of them stops at the first that
  fails (`run`). `Fresh` is version 0 without tables, `Complete` version 1 with every table
  and index once. On a fresh file every statement of the schema succeeds
  (`Fresh.executes`), and the file is complete after the last (`run_schema`); on a complete
  one already the first fails (`Complete.fails`).
-/
import Mathlib.Data.List.Perm.Basic
import MythLab.Lib.Effect
import MythLab.Storage.Database

namespace MythLab.Storage.Schema

open Lib Dotnet

inductive Entry where
  | devices
  | uxDeviceMac
  | uxDeviceHost
  | uxDeviceIp
  | credentials
  | connectionProfiles
  | ixProfilesDevice
  deriving DecidableEq, Repr

/-- What SQLite calls it. -/
def Entry.described : Entry → String
  | .devices => "table devices"
  | .uxDeviceMac => "index ux_device_mac"
  | .uxDeviceHost => "index ux_device_host"
  | .uxDeviceIp => "index ux_device_ip"
  | .credentials => "table credentials"
  | .connectionProfiles => "table connection_profiles"
  | .ixProfilesDevice => "index ix_profiles_device"

/-- The table that an index is on. -/
def Entry.indexed : Entry → Option (Entry × String)
  | .uxDeviceMac | .uxDeviceHost | .uxDeviceIp => some (.devices, "main.devices")
  | .ixProfilesDevice => some (.connectionProfiles, "main.connection_profiles")
  | .devices | .credentials | .connectionProfiles => none

/-- A new table has no rows. -/
def Entry.cleared : Entry → Database → Database
  | .devices, db => { db with devices := .empty }
  | .credentials, db => { db with credentials := .empty }
  | .connectionProfiles, db => { db with profiles := .empty }
  | _, db => db

structure File where
  userVersion : Nat
  entries : List Entry
  db : Database

inductive Statement where
  | create (entry : Entry)
  | userVersion (version : Nat)
  deriving DecidableEq, Repr

/-- SQLITE_ERROR -/
def sqliteError (message : String) : Exn := .sqlite 1 message

def execute : Statement → File → Except Exn File
  | .create entry, f => do
    match entry.indexed with
    | some (table, name) => throwIf (table ∉ f.entries) (sqliteError ("no such table: " ++ name))
    | none => pure ()
    throwIf (entry ∈ f.entries) (sqliteError (entry.described ++ " already exists"))
    pure { f with entries := f.entries ++ [entry], db := entry.cleared f.db }
  | .userVersion version, f => .ok { f with userVersion := version }

def run (statements : List Statement) (f : File) : Except Exn File :=
  statements.foldlM (fun f statement => execute statement f) f

/-- The batch that `InitializeAsync` executes in its transaction. -/
def schema : List Statement :=
  [.create .devices, .create .uxDeviceMac, .create .uxDeviceHost, .create .uxDeviceIp, .create .credentials,
    .create .connectionProfiles, .create .ixProfilesDevice, .userVersion 1]

def allEntries : List Entry :=
  [.devices, .uxDeviceMac, .uxDeviceHost, .uxDeviceIp, .credentials, .connectionProfiles, .ixProfilesDevice]

structure Fresh (f : File) : Prop where
  version : f.userVersion = 0
  entries : f.entries = []
  rows : f.db = Database.empty

/-- Every table and index is there, once. -/
structure Complete (f : File) : Prop where
  version : f.userVersion = 1
  entries : f.entries.Perm allEntries

def Whole (f : File) : Prop := Fresh f ∨ Complete f

/-! ## The batch -/

variable {f w : File} {statement : Statement} {done rest : List Statement}

theorem run_append (done rest : List Statement) (f : File) : run (done ++ rest) f = run done f >>= run rest :=
  List.foldlM_append

theorem run_snoc (h : run done f = .ok w) (statement : Statement) :
    run (done ++ [statement]) f = execute statement w := by
  rw [run_append, h, ok_bind]
  show execute statement w >>= pure = _
  cases execute statement w <;> rfl

theorem Fresh.run_schema (hf : Fresh f) : run schema f = .ok ⟨1, allEntries, f.db⟩ := by
  obtain ⟨version, entries, db⟩ := f
  obtain ⟨rfl, rfl, rfl⟩ := hf
  rfl

/-- Each of the statements can be executed when its turn has come. -/
theorem Fresh.executes (hf : Fresh f) (hsplit : done ++ statement :: rest = schema) (hdone : run done f = .ok w) :
    ∃ w', execute statement w = .ok w' := by
  have hall := hf.run_schema
  rw [← hsplit, run_append, hdone, ok_bind] at hall
  obtain ⟨w', hw', -⟩ := bind_ok_iff.mp hall
  exact ⟨w', hw'⟩

/-- None of them has been executed on a complete file. -/
theorem Complete.fails (hf : Complete f) (hsplit : done ++ rest = schema) (hdone : run done f = .ok w) : done = [] := by
  cases done with
  | nil => rfl
  | cons first done =>
    obtain ⟨rfl, -⟩ := List.cons.inj hsplit
    obtain ⟨w', hw', -⟩ := bind_ok_iff.mp hdone
    have hpresent : Entry.devices ∈ f.entries := hf.entries.mem_iff.mpr (by decide)
    have hnot := (throwIf_bind_ok_iff.mp hw').1
    exact absurd hpresent hnot

theorem Whole.version_le (hf : Whole f) : f.userVersion ≤ 1 := by
  rcases hf with hf | hf
  · rw [hf.version]
    omega
  · rw [hf.version]

theorem Whole.run_schema (hf : Whole f) (hrun : run schema f = .ok w) : Complete w ∧ w.db = f.db := by
  rcases hf with hf | hf
  · rw [hf.run_schema] at hrun
    cases hrun
    exact ⟨⟨rfl, .refl _⟩, rfl⟩
  · have hnil : schema = [] := hf.fails (List.append_nil schema) hrun
    cases hnil

end MythLab.Storage.Schema
