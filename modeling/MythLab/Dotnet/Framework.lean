/-
  MythLab.Dotnet.Framework — the platform the code runs on: identifiers, times,
  exceptions, and the functions of .NET whose tables the model does not carry.

  `Framework` holds those functions as parameters, each with what the code relies on.
  `Framework.ascii` is one that behaves as .NET does on ASCII.
-/
import MythLab.Dotnet.Text

namespace MythLab.Dotnet

/-- A `Guid`, as the number its text is the hexadecimal form of: the order of ids is the
    order of their texts. -/
abbrev Guid := BitVec 128

def Guid.empty : Guid := 0

/-- A `DateTimeOffset`. Comparisons are of the instants. -/
structure DateTimeOffset where
  utcTicks : Int
  offsetMinutes : Int
  deriving DecidableEq, Repr

/-- `a > b` on `DateTimeOffset?`: false when either is null. -/
def laterThan : Option DateTimeOffset → Option DateTimeOffset → Bool
  | some a, some b => b.utcTicks < a.utcTicks
  | _, _ => false

/-- How the Windows credential store answers. -/
inductive SecretStatus where
  | available
  | missing
  | accessDenied
  | storeError
  deriving DecidableEq, Repr

/-- What the code throws, and what the platform throws through it. -/
inductive Exn where
  | argument (message : String)
  | invalidOperation (message : String)
  | invalidData (message : String)
  | operationCanceled
  | timeout (message : String)
  | sqlite (errorCode : Nat) (message : String)
  | io (message : String)
  | json (message : String)
  | format (message : String)
  | deviceValidation (message : String)
  | duplicateDevice (message : String)
  | hostIdentity (message : String)
  | credentialStore (status : SecretStatus)
  | sshAuthentication (message : String)
  | other (message : String)
  deriving DecidableEq, Repr

/-- The parts of a parsed absolute `Uri` that the code reads. -/
structure Uri where
  scheme : Str
  host : Str
  userInfo : Str
  text : Str
  deriving DecidableEq, Repr

structure Framework where
  /-- The case mapping of `StringComparison.OrdinalIgnoreCase`. -/
  upper : Str → Str
  /-- It folds ASCII letters. -/
  upper_asciiLower : ∀ s, upper (s.map asciiLower) = upper s
  /-- It maps character by character. -/
  upper_length : ∀ s, (upper s).length = s.length
  /-- `ToLowerInvariant`. -/
  toLowerInvariant : Str → Str
  /-- `Uri.CheckHostName(s) == UriHostNameType.Dns`. -/
  isDnsName : Str → Bool
  /-- `Uri.TryCreate(s, UriKind.Absolute, …)`. -/
  tryCreateUri : Str → Option Uri
  /-- `Uri.EscapeDataString`. -/
  escapeDataString : Str → Str
  /-- Equality of characters under the regular expression option `(?i)`. -/
  sameIgnoringCase : Char16 → Char16 → Bool
  /-- `SHA256.HashData`. -/
  sha256 : List UInt8 → List UInt8

namespace Framework

variable (fw : Framework)

/-- `string.Equals(a, b, StringComparison.OrdinalIgnoreCase)`. -/
def equalsIgnoreCase (a b : Str) : Bool := fw.upper a == fw.upper b

theorem equalsIgnoreCase_comm (a b : Str) : fw.equalsIgnoreCase a b = fw.equalsIgnoreCase b a := Bool.beq_comm

/-- Strings equal up to the case of ASCII letters are equal ignoring case. -/
theorem equalsIgnoreCase_of_ascii {a b : Str} (h : a.map asciiLower = b.map asciiLower) :
    fw.equalsIgnoreCase a b = true := by
  unfold equalsIgnoreCase
  rw [← fw.upper_asciiLower a, ← fw.upper_asciiLower b, h]
  exact beq_self_eq_true _

theorem equalsIgnoreCase_length {a b : Str} (h : fw.equalsIgnoreCase a b = true) : a.length = b.length := by
  rw [← fw.upper_length a, ← fw.upper_length b, eq_of_beq h]

/-- Lower case instead of upper, ASCII letters only. -/
def ascii : Framework where
  upper := List.map asciiLower
  upper_asciiLower s := by
    rw [List.map_map]
    refine List.map_congr_left ?_
    intro c _
    show asciiLower (asciiLower c) = asciiLower c
    unfold asciiLower
    split
    · rename_i h
      simp only [Bool.and_eq_true, decide_eq_true_eq] at h
      have hc : (c + 32).toNat = c.toNat + 32 := by
        rw [UInt16.toNat_add]
        exact Nat.mod_eq_of_lt (by have : UInt16.toNat 32 = 32 := rfl; omega)
      rw [if_neg]
      simp only [Bool.and_eq_true, decide_eq_true_eq]
      omega
    · rfl
  upper_length _ := List.length_map _
  toLowerInvariant := List.map asciiLower
  isDnsName s := s.all fun c => isAsciiLetterOrDigit c || c == chr '-' || c == chr '.'
  tryCreateUri s :=
    if startsWith s (str "http://") then some ⟨str "http", (s.drop 7).takeWhile (· != chr '/'), [], s⟩ else none
  escapeDataString s := s
  sameIgnoringCase a b := asciiLower a == asciiLower b
  sha256 bytes := (bytes ++ List.replicate 32 0).take 32

end Framework

end MythLab.Dotnet
