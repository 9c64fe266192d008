/-
  MythLab.Ssh.KnownHosts — the identities of SSH servers: how one is named, how a list of
  known ones judges it, and what a known-hosts file must satisfy to be read.

  `evaluate_trusted` and `evaluate_unknown` say what a judgement rests on; a key that is
  none of those recorded for its host and port is `changed` as soon as there is one
  (`evaluate_changed`).
-/
import MythLab.Lib.Effect
import MythLab.Dotnet.Base64
import MythLab.Dotnet.Framework

namespace MythLab.Ssh

open Lib Dotnet

structure KnownHost where
  host : Str
  port : Int
  algorithm : Str
  publicKey : Str
  fingerprint : Str
  deriving DecidableEq, Repr

inductive HostTrust where
  | unknown
  | trusted
  | changed
  deriving DecidableEq, Repr

/-- `JsonSerializer` on the list of known hosts, to and from the bytes of the file. A file
    may hold null for the list and for a record; a null text is read as the empty one. -/
structure Json where
  serialize : List KnownHost → List UInt8
  deserialize : List UInt8 → Except Exn (Option (List (Option KnownHost)))

/-- `JsonSerializer` where no character has to be escaped, writing indented; it reads only
    the empty list. -/
def Json.plain : Json where
  serialize entries :=
    let field (name : String) (value : Str) : Str := str "    \"" ++ str name ++ str "\": " ++ value
    let quoted (text : Str) : Str := [chr '"'] ++ text ++ [chr '"']
    let record (k : KnownHost) : Str :=
      str "  \x7b\r\n" ++ join (str ",\r\n") [field "Host" (quoted k.host), field "Port" (str (toString k.port)),
        field "Algorithm" (quoted k.algorithm), field "PublicKey" (quoted k.publicKey),
        field "Fingerprint" (quoted k.fingerprint)] ++ str "\r\n  \x7d"
    let text := if entries = [] then str "[]"
      else str "[\r\n" ++ join (str ",\r\n") (entries.map record) ++ str "\r\n]"
    text.map UInt16.toUInt8
  deserialize bytes :=
    if bytes = [91, 93] then .ok (some []) else .error (.json "The JSON value could not be converted.")

/-- The list read back is the one written, for lists of these hosts, each once. -/
def Json.RoundTrips (json : Json) (hosts : KnownHost → Prop) : Prop :=
  ∀ entries, entries.Nodup → (∀ k ∈ entries, hosts k) →
    json.deserialize (json.serialize entries) = .ok (some (entries.map some))

namespace KnownHosts

section

variable (fw : Framework)

def identify (host : Str) (port : Int) (algorithm : Str) (key : List UInt8) : KnownHost where
  host := fw.toLowerInvariant (trimEnd (chr '.') (trim host))
  port := port
  algorithm := algorithm
  publicKey := toBase64String key
  fingerprint := str "SHA256:" ++ trimEnd (chr '=') (toBase64String (fw.sha256 key))

def isIncomplete (entry : KnownHost) : Bool :=
  isNullOrWhiteSpace entry.host || isNullOrWhiteSpace entry.algorithm || isNullOrWhiteSpace entry.publicKey ||
    isNullOrWhiteSpace entry.fingerprint

def checkEntry : Option KnownHost → Except Exn KnownHost
  | none => .error (.invalidData "Known-hosts record is incomplete.")
  | some entry => do
    throwIf (isIncomplete entry) (.invalidData "Known-hosts record is incomplete.")
    let key ← match fromBase64String entry.publicKey with
      | some key => pure key
      | none => .error (.format "The input is not a valid Base-64 string.")
    let identified := identify fw entry.host entry.port entry.algorithm key
    throwIf (entry.host ≠ identified.host ∨ entry.fingerprint ≠ identified.fingerprint ∨ entry.port < 1 ∨
        65535 < entry.port ∨ isNullOrWhiteSpace entry.algorithm)
      (.invalidData "Known-hosts record is invalid.")
    pure entry

/-- What a file of at most four mebibytes holds. -/
def parse (json : Json) (bytes : List UInt8) : Except Exn (List KnownHost) := do
  match ← json.deserialize bytes with
  | none => .error (.invalidData "Known-hosts file is invalid.")
  | some entries => entries.mapM (checkEntry fw)

end

/-! ## Judging an identity -/

/-- The records for the host and port of `incoming`. -/
def matching (known : List KnownHost) (incoming : KnownHost) : List KnownHost :=
  known.filter fun k => k.host = incoming.host ∧ k.port = incoming.port

def sameKey (k incoming : KnownHost) : Bool := k.algorithm = incoming.algorithm ∧ k.publicKey = incoming.publicKey

def evaluate (known : List KnownHost) (incoming : KnownHost) : HostTrust :=
  if matching known incoming = [] then .unknown
  else if (matching known incoming).any fun k => sameKey k incoming then .trusted
  else .changed

/-- `known` holds a record of this host and port with this algorithm and key. -/
def Recorded (known : List KnownHost) (incoming : KnownHost) : Prop :=
  ∃ k ∈ matching known incoming, sameKey k incoming

theorem evaluate_unknown {known : List KnownHost} {incoming : KnownHost} :
    evaluate known incoming = .unknown ↔ matching known incoming = [] := by
  unfold evaluate
  split
  · simp [*]
  · split <;> simp [*]

theorem evaluate_trusted {known : List KnownHost} {incoming : KnownHost} :
    evaluate known incoming = .trusted ↔ Recorded known incoming := by
  unfold evaluate Recorded
  split
  · rename_i h
    simp [h]
  · split
    · rename_i h
      simpa using h
    · rename_i h
      simpa using h

theorem evaluate_changed {known : List KnownHost} {incoming : KnownHost} :
    evaluate known incoming = .changed ↔ matching known incoming ≠ [] ∧ ¬ Recorded known incoming := by
  rw [← evaluate_trusted, ne_eq, ← evaluate_unknown]
  cases evaluate known incoming <;> simp

/-! ## Updates of the list -/

/-- The update of `TrustAsync`. -/
def trust (host : KnownHost) (entries : List KnownHost) : Except Exn (List KnownHost) :=
  match evaluate entries host with
  | .changed =>
    .error (.hostIdentity "SSH identity changed. Remove the old trusted host explicitly after verifying the change.")
  | .unknown => .ok (entries ++ [host])
  | .trusted => .ok entries

/-- The update of `RemoveAsync`. -/
def remove (host : KnownHost) (entries : List KnownHost) : Except Exn (List KnownHost) :=
  .ok (entries.filter (· ≠ host))

/-- Trusting keeps every record where it is; it may add one at the end. -/
theorem trust_keeps {host : KnownHost} {entries updated : List KnownHost} (h : trust host entries = .ok updated) :
    updated = entries ∨ updated = entries ++ [host] ∧ matching entries host = [] := by
  unfold trust at h
  split at h
  · cases h
  · rename_i hu
    cases h
    exact Or.inr ⟨rfl, evaluate_unknown.mp hu⟩
  · cases h
    exact Or.inl rfl

/-! ## What is written can be read -/

/-- `ToLowerInvariant` maps the characters one to one, changes nothing the second time, and
    neither makes nor removes white space or full stops. -/
structure Lowers (fw : Framework) : Prop where
  again : ∀ s, fw.toLowerInvariant (fw.toLowerInvariant s) = fw.toLowerInvariant s
  whiteSpace : ∀ s, (fw.toLowerInvariant s).map isWhiteSpace = s.map isWhiteSpace
  fullStop : ∀ s, (fw.toLowerInvariant s).map (· == chr '.') = s.map (· == chr '.')

/-- A host text without the white space around it and then the full stops at its end. -/
def stripped (text : Str) : Str := trimEnd (chr '.') (trim text)

/-- What is left of the host text is not empty and has no white space at its end. -/
def Settles (text : Str) : Prop := stripped text ≠ [] ∧ trim (stripped text) = stripped text

instance (text : Str) : Decidable (Settles text) := inferInstanceAs (Decidable (_ ∧ _))

/-- `host` is what `Identify` makes of this text and a port, an algorithm and a key as they must be. -/
def Identified (fw : Framework) (text : Str) (host : KnownHost) : Prop :=
  isNullOrWhiteSpace text = false ∧ ∃ port algorithm key, host = identify fw text port algorithm key ∧
    1 ≤ port ∧ port ≤ 65535 ∧ isNullOrWhiteSpace algorithm = false ∧ key ≠ []

section Written

variable {fw : Framework} {text : Str} {host : KnownHost}

/-- A settled host name is its own. -/
theorem stripped_lower (hlower : Lowers fw) (h : Settles text) :
    stripped (fw.toLowerInvariant (stripped text)) = fw.toLowerInvariant (stripped text) := by
  have htrim : trim (fw.toLowerInvariant (stripped text)) = fw.toLowerInvariant (stripped text) :=
    trim_of_map (hlower.whiteSpace _) h.2
  have hend : trimEnd (chr '.') (stripped text) = stripped text := trimEnd_trimEnd _ _
  show trimEnd (chr '.') (trim (fw.toLowerInvariant (stripped text))) = _
  rw [htrim]
  exact trimEnd_of_map (hlower.fullStop _) hend

theorem lower_not_blank (hlower : Lowers fw) (h : Settles text) :
    isNullOrWhiteSpace (fw.toLowerInvariant (stripped text)) = false := by
  have hmap := hlower.whiteSpace (stripped text)
  have hblank (s : Str) : isNullOrWhiteSpace s = (s.map isWhiteSpace).all id := by
    simp [isNullOrWhiteSpace, List.all_map]
  obtain ⟨hne, htrim⟩ := h
  rw [hblank, hmap, ← hblank]
  cases hs : stripped text with
  | nil => exact absurd hs hne
  | cons c rest =>
    have hfirst := trim_first (stripped text)
    rw [htrim, hs] at hfirst
    simp [isNullOrWhiteSpace, hfirst c rfl]

/-- What the reader accepts. -/
theorem checkEntry_ok {entry k : KnownHost} : checkEntry fw (some entry) = .ok k ↔
    k = entry ∧ isIncomplete entry = false ∧ ∃ key, fromBase64String entry.publicKey = some key ∧
      entry.host = (identify fw entry.host entry.port entry.algorithm key).host ∧
      entry.fingerprint = (identify fw entry.host entry.port entry.algorithm key).fingerprint ∧
      1 ≤ entry.port ∧ entry.port ≤ 65535 ∧ isNullOrWhiteSpace entry.algorithm = false := by
  unfold checkEntry
  rw [throwIf_bind_ok_iff, Bool.not_eq_true]
  cases hkey : fromBase64String entry.publicKey with
  | none =>
    refine ⟨fun h => ?_, fun h => ?_⟩
    · cases h.2
    · obtain ⟨-, -, key, hkey', -⟩ := h
      cases hkey'
  | some key =>
    show _ ∧ (throwIf _ _ >>= _) = _ ↔ _
    rw [throwIf_bind_ok_iff]
    simp only [not_or, ne_eq, not_not, Int.not_lt, Bool.not_eq_true, Option.some.injEq, exists_eq_left']
    constructor
    · rintro ⟨hcomplete, hvalid, h⟩
      cases h
      exact ⟨rfl, hcomplete, hvalid⟩
    · rintro ⟨rfl, hcomplete, hvalid⟩
      exact ⟨hcomplete, hvalid, rfl⟩

/-- The reader accepts an identity whose host text settles. -/
theorem checkEntry_identified (hlower : Lowers fw) (h : Identified fw text host) (hsettles : Settles text) :
    checkEntry fw (some host) = .ok host := by
  obtain ⟨-, port, algorithm, key, rfl, hport, hport', halgorithm, hkey⟩ := h
  have hhost := lower_not_blank hlower hsettles
  have hfingerprint (s : Str) : isNullOrWhiteSpace (str "SHA256:" ++ s) = false := by
    have hword : isNullOrWhiteSpace (str "SHA256:") = false := by decide
    unfold isNullOrWhiteSpace at *
    rw [List.all_append, hword, Bool.false_and]
  have hcomplete : isIncomplete (identify fw text port algorithm key) = false := by
    unfold isIncomplete identify
    simp only [stripped] at hhost
    simp only [hhost, halgorithm, toBase64String_not_blank hkey, hfingerprint, Bool.or_false]
  have hsame : identify fw (identify fw text port algorithm key).host port algorithm key =
      identify fw text port algorithm key := by
    unfold identify
    congr 1
    show fw.toLowerInvariant (stripped (fw.toLowerInvariant (stripped text))) = _
    rw [stripped_lower hlower hsettles, hlower.again]
    rfl
  refine checkEntry_ok.mpr ⟨rfl, hcomplete, key, fromBase64String_toBase64String key, ?_⟩
  show _ = (identify fw (identify fw text port algorithm key).host port algorithm key).host ∧
    _ = (identify fw (identify fw text port algorithm key).host port algorithm key).fingerprint ∧ _
  rw [hsame]
  exact ⟨rfl, rfl, hport, hport', halgorithm⟩

/-- One key has one fingerprint. -/
theorem checkEntry_fingerprint {k : KnownHost} (hk : checkEntry fw (some k) = .ok k)
    (hhost : checkEntry fw (some host) = .ok host) (hkey : k.publicKey = host.publicKey) :
    k.fingerprint = host.fingerprint := by
  obtain ⟨-, -, key, hdecode, -, hfingerprint, -⟩ := checkEntry_ok.mp hk
  obtain ⟨-, -, key', hdecode', -, hfingerprint', -⟩ := checkEntry_ok.mp hhost
  rw [hkey] at hdecode
  cases hdecode.symm.trans hdecode'
  rw [hfingerprint, hfingerprint']
  rfl

/-- A file of accepted records is read as what was written. -/
theorem parse_serialize {json : Json} {entries : List KnownHost}
    (hjson : json.deserialize (json.serialize entries) = .ok (some (entries.map some)))
    (hentries : ∀ k ∈ entries, checkEntry fw (some k) = .ok k) : parse fw json (json.serialize entries) = .ok entries := by
  have hall : (entries.map some).mapM (checkEntry fw) = .ok entries := by
    clear hjson
    induction entries with
    | nil => rfl
    | cons k entries ih =>
      rw [List.map_cons, List.mapM_cons, hentries k List.mem_cons_self,
        ih fun k' hk' => hentries k' (List.mem_cons_of_mem _ hk')]
      rfl
  unfold parse
  rw [hjson]
  exact hall

end Written

theorem lowers_ascii : Lowers Framework.ascii := by
  have hclass (c : Char16) : isWhiteSpace (asciiLower c) = isWhiteSpace c ∧
      (asciiLower c == chr '.') = (c == chr '.') := by
    unfold asciiLower
    split
    · rename_i h
      simp only [Bool.and_eq_true, decide_eq_true_eq] at h
      have hc : (c + 32).toNat = c.toNat + 32 := by
        rw [UInt16.toNat_add]
        exact Nat.mod_eq_of_lt (by have : UInt16.toNat 32 = 32 := rfl; omega)
      have hdot : (chr '.').toNat = 46 := rfl
      refine ⟨?_, ?_⟩
      · unfold isWhiteSpace
        simp only [hc]
        grind
      · rw [Bool.eq_iff_iff, beq_iff_eq, beq_iff_eq, ← UInt16.toNat_inj, ← UInt16.toNat_inj, hc, hdot]
        omega
    · exact ⟨rfl, rfl⟩
  refine ⟨?_, ?_, ?_⟩
  · exact Framework.ascii.upper_asciiLower
  · intro s
    show (s.map asciiLower).map isWhiteSpace = s.map isWhiteSpace
    rw [List.map_map]
    exact List.map_congr_left fun c _ => (hclass c).1
  · intro s
    show (s.map asciiLower).map (· == chr '.') = s.map (· == chr '.')
    rw [List.map_map]
    exact List.map_congr_left fun c _ => (hclass c).2

end KnownHosts

end MythLab.Ssh
