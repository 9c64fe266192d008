/-
  MythLab.Connections.SavedIdentities — the names a device may be stored under, against
  those the launcher takes.

  The inventory asks `Uri.CheckHostName`, the launcher has a grammar of its own: labels of
  letters, digits and hyphens that neither start nor end with a hyphen, and nothing made
  of digits and dots but a dotted address. Proved (`saved_identity_accepted`): the stored
  IPv4 address is always accepted, and the stored hostname exactly when it is
  `Launchable`. A name with an underscore can be stored and is refused at every launch
  (`underscore_is_refused`).
-/
import MythLab.Devices.NetworkNames
import MythLab.Connections.ExternalConnections

namespace MythLab.Connections.ExternalConnections

open Lib Dotnet Devices DeviceRules

/-- What the launcher asks of a DNS name beyond what the inventory does. -/
def Launchable (host : Str) : Prop :=
  chr '_' ∉ host ∧ (∀ label ∈ split (chr '.') host, label.getLast? ≠ some (chr '-')) ∧
    ∃ c ∈ host, isAsciiDigit c = false ∧ c ≠ chr '.'

/-! ## Dotted addresses -/

theorem required_visible {s : Str} (hne : s ≠ []) (h : ∀ c ∈ s, 33 ≤ c.toNat ∧ c.toNat ≤ 126) : required s = .ok s := by
  unfold required
  rw [if_pos]
  · rfl
  refine ⟨?_, ?_⟩
  · intro hblank
    have hfirst := List.all_eq_true.mp hblank _ (List.head_mem hne)
    rw [(visible (h _ (List.head_mem hne))).1] at hfirst
    cases hfirst
  · intro hcontrol
    obtain ⟨c, hc, hcontrol⟩ := List.any_eq_true.mp hcontrol
    rw [(visible (h c hc)).2] at hcontrol
    cases hcontrol

theorem networkIdentity_dotted {s : Str} (h : isDotted s = true) (ipOnly : Bool) : networkIdentity s ipOnly = .ok s := by
  have hchars := isDotted_chars h
  have hvisible : ∀ c ∈ s, 33 ≤ c.toNat ∧ c.toNat ≤ 126 := by
    intro c hc
    have hc := hchars c hc
    rw [Bool.or_eq_true, isAsciiDigit_iff, beq_iff_eq] at hc
    rcases hc with hc | rfl
    · omega
    · decide
  obtain ⟨hlength, hparts⟩ := of_decide_eq_true h
  unfold networkIdentity
  rw [required_visible (isDotted_ne_nil h) hvisible, ok_bind, if_pos (Or.inr (List.all_eq_true.mpr hchars)), if_neg]
  · rfl
  · rw [not_or]
    exact ⟨not_not.mpr hlength, hparts⟩

/-! ## DNS names -/

/-- A label the inventory accepts is refused by the launcher for an underscore or a last hyphen. -/
theorem badLabel_iff {label : Str} (h : isDnsLabel label = true) :
    badLabel label = true ↔ chr '_' ∈ label ∨ label.getLast? = some (chr '-') := by
  simp only [isDnsLabel, Bool.and_eq_true, List.all_eq_true, decide_eq_true_eq] at h
  obtain ⟨⟨hfirst, hlength⟩, hchars⟩ := h
  have hne : label ≠ [] := by
    rintro rfl
    cases hfirst
  have hpos := List.length_pos_of_ne_nil hne
  have hhead : label.head? ≠ some (chr '-') := by
    intro hhead
    rw [hhead] at hfirst
    revert hfirst
    decide
  unfold badLabel
  simp only [Bool.or_eq_true, decide_eq_true_eq, beq_iff_eq, List.any_eq_true, Bool.and_eq_true, Bool.not_eq_true',
    bne_iff_ne]
  refine ⟨?_, ?_⟩
  · rintro ((((h | h) | h) | h) | ⟨c, hc, hletter, hhyphen⟩)
    · omega
    · omega
    · exact absurd h hhead
    · exact Or.inr h
    · have hc' := hchars c hc
      rw [hletter, Bool.false_or] at hc'
      simp only [isHyphenOrUnderscore, Bool.or_eq_true, beq_iff_eq] at hc'
      rcases hc' with rfl | rfl
      · exact absurd rfl hhyphen
      · exact Or.inl hc
  · rintro (h | h)
    · exact Or.inr ⟨_, h, by decide, by decide⟩
    · exact Or.inl (Or.inr h)

theorem any_badLabel_iff {host : Str} (h : (split (chr '.') host).all isDnsLabel = true) :
    (split (chr '.') host).any badLabel = true ↔
      chr '_' ∈ host ∨ ∃ label ∈ split (chr '.') host, label.getLast? = some (chr '-') := by
  rw [List.all_eq_true] at h
  rw [List.any_eq_true]
  refine ⟨?_, ?_⟩
  · intro ⟨label, hm, hbad⟩
    rcases (badLabel_iff (h label hm)).mp hbad with hu | hl
    · exact Or.inl (mem_of_mem_split hm hu)
    · exact Or.inr ⟨label, hm, hl⟩
  · rintro (hu | ⟨label, hm, hl⟩)
    · rcases @mem_split (chr '.') _ _ hu with hdot | ⟨label, hm, hu⟩
      · exact absurd hdot (by decide)
      · exact ⟨label, hm, (badLabel_iff (h label hm)).mpr (Or.inl hu)⟩
    · exact ⟨label, hm, (badLabel_iff (h label hm)).mpr (Or.inr hl)⟩

variable {fw : Framework} {formsIPv4 : Str → Bool}

theorem dnsName_visible {host : Str} (h : (split (chr '.') host).all isDnsLabel = true) :
    host ≠ [] ∧ ∀ c ∈ host, 33 ≤ c.toNat ∧ c.toNat ≤ 126 := by
  rw [List.all_eq_true] at h
  refine ⟨?_, ?_⟩
  · rintro rfl
    exact isDnsLabel_ne_nil (h [] (by simp [split])) rfl
  · intro c hc
    rcases @mem_split (chr '.') _ _ hc with rfl | ⟨label, hm, hc⟩
    · decide
    · exact isDnsLabel_visible (h label hm) c hc

/-- The launcher accepts a DNS name exactly when it is launchable. -/
theorem networkIdentity_dns_iff (hnames : ChecksHostNames fw formsIPv4) {host : Str} (hdns : fw.isDnsName host = true)
    (hlength : host.length ≤ 253) : networkIdentity host false = .ok host ↔ Launchable host := by
  rw [hnames.dns, Bool.and_eq_true, Bool.not_eq_true'] at hdns
  obtain ⟨hlabels, hip⟩ := hdns
  obtain ⟨hne, hvisible⟩ := dnsName_visible hlabels
  have hdotted : isDotted host = false := by
    refine (Bool.not_eq_true _).mp ?_
    intro hdotted
    rw [hnames.dotted host hdotted] at hip
    cases hip
  unfold networkIdentity Launchable
  rw [required_visible hne hvisible, ok_bind]
  by_cases hdigits : (host.all fun c => isAsciiDigit c || c == chr '.') = true
  · -- not a dotted address, so refused as one
    rw [if_pos (Or.inr hdigits), if_pos]
    · refine ⟨fun h => (by cases h), ?_⟩
      rintro ⟨-, -, c, hc, hdigit, hdot⟩
      have hc := List.all_eq_true.mp hdigits c hc
      rw [hdigit, Bool.false_or, beq_iff_eq] at hc
      exact absurd hc hdot
    · rw [isDotted, decide_eq_false_iff_not, not_and_or, not_not] at hdotted
      exact hdotted
  · rw [if_neg (by simpa using hdigits)]
    have hother : ∃ c ∈ host, isAsciiDigit c = false ∧ c ≠ chr '.' := by
      simpa [List.all_eq_true] using hdigits
    by_cases hbad : (split (chr '.') host).any badLabel = true
    · rw [if_pos (Or.inr hbad)]
      refine ⟨fun h => (by cases h), ?_⟩
      rintro ⟨hunderscore, hhyphen, -⟩
      rcases (any_badLabel_iff hlabels).mp hbad with hu | ⟨label, hm, hl⟩
      · exact absurd hu hunderscore
      · exact absurd hl (hhyphen label hm)
    · rw [if_neg (not_or.mpr ⟨Nat.not_lt.mpr hlength, hbad⟩)]
      refine ⟨fun _ => ⟨?_, ?_, hother⟩, fun _ => rfl⟩
      · exact fun hu => hbad ((any_badLabel_iff hlabels).mpr (Or.inl hu))
      · exact fun label hm hl => hbad ((any_badLabel_iff hlabels).mpr (Or.inr ⟨label, hm, hl⟩))

/-! ## Stored devices -/

theorem storedHost_blank (hnames : ChecksHostNames fw formsIPv4) {d : Device} {ip mac broadcast : Str}
    (h : Accepted fw d ip mac broadcast) : isNullOrWhiteSpace (storedHost d) = true ↔ storedHost d = [] := by
  refine ⟨?_, ?_⟩
  · intro hblank
    by_contra hne
    have hdns := h.host.2 hne
    rw [hnames.dns, Bool.and_eq_true] at hdns
    have hfirst := (visible ((dnsName_visible hdns.1).2 _ (List.head_mem hne))).1
    rw [List.all_eq_true.mp hblank _ (List.head_mem hne)] at hfirst
    cases hfirst
  · intro hnil
    rw [hnil]
    rfl

theorem stored_dotted {d : Device} {ip mac broadcast : Str} (h : Accepted fw d ip mac broadcast) (hne : ip ≠ []) :
    isDotted ip = true := by
  have hip := h.ipv4Address
  unfold normalizeIPv4IfAny at hip
  split at hip
  · exact normalizeIPv4_dotted hip
  · exact absurd (Except.ok.inj hip).symm (by simp_all)

theorem stored_reachable {d : Device} {ip mac broadcast : Str} (h : Accepted fw d ip mac broadcast)
    (hhost : storedHost d = []) : ip ≠ [] := by
  have hip := h.ipv4Address
  rw [normalizeIPv4IfAny, if_pos (List.length_pos_of_ne_nil (h.reachable.resolve_left (not_not.mpr hhost)))] at hip
  exact isDotted_ne_nil (normalizeIPv4_dotted hip)

/-- The launcher accepts the IPv4 address of a stored device, and its hostname exactly when it is
    launchable. -/
theorem saved_identity_accepted (hnames : ChecksHostNames fw formsIPv4) {d n : Device}
    (h : normalizeAndValidate fw d = .ok n) :
    (n.ipv4Address ≠ [] → ∀ ipOnly, networkIdentity n.ipv4Address ipOnly = .ok n.ipv4Address) ∧
      (n.hostname ≠ [] → (networkIdentity n.hostname false = .ok n.hostname ↔ Launchable n.hostname)) ∧
      (networkIdentity n.endpoint false = .ok n.endpoint ↔ (n.hostname ≠ [] → Launchable n.hostname)) := by
  obtain ⟨ip, mac, broadcast, haccepted, rfl⟩ := normalizeAndValidate_ok_iff.mp h
  have hip (hne : ip ≠ []) (ipOnly : Bool) : networkIdentity ip ipOnly = .ok ip :=
    networkIdentity_dotted (stored_dotted haccepted hne) ipOnly
  have hhost (hne : storedHost d ≠ []) :
      networkIdentity (storedHost d) false = .ok (storedHost d) ↔ Launchable (storedHost d) :=
    networkIdentity_dns_iff hnames (haccepted.host.2 hne) haccepted.host.1
  refine ⟨hip, hhost, ?_⟩
  show networkIdentity (if isNullOrWhiteSpace (storedHost d) then ip else storedHost d) false =
    .ok (if isNullOrWhiteSpace (storedHost d) then ip else storedHost d) ↔ (storedHost d ≠ [] → Launchable (storedHost d))
  by_cases hne : storedHost d = []
  · rw [if_pos ((storedHost_blank hnames haccepted).mpr hne)]
    exact ⟨fun _ hne' => absurd hne hne', fun _ => hip (stored_reachable haccepted hne) false⟩
  · rw [if_neg (mt (storedHost_blank hnames haccepted).mp hne), hhost hne]
    exact ⟨fun hl _ => hl, fun hl => hl hne⟩

/-! ## An underscore -/

/-- Names of labels, where only dotted addresses are IPv4. -/
def labelled : Framework :=
  { Framework.ascii with isDnsName := fun s => (split (chr '.') s).all isDnsLabel && !isDotted s }

theorem labelled_checksHostNames : ChecksHostNames labelled isDotted := ⟨fun _ => rfl, fun _ h => h⟩

def underscored : Device := { id := 1, displayName := str "NAS", hostname := str "my_nas", ipv4Address := str "10.0.0.2" }

theorem underscored_accepted : normalizeAndValidate labelled underscored = .ok underscored := by decide +kernel

/-- A name that Windows resolves and the inventory stores is refused at every launch. -/
theorem underscore_is_refused : ¬ ∀ (fw : Framework) (formsIPv4 : Str → Bool) (_ : ChecksHostNames fw formsIPv4)
    (d n : Device), normalizeAndValidate fw d = .ok n →
      networkIdentity n.endpoint false = .ok n.endpoint ∧
        (n.hostname ≠ [] → networkIdentity n.hostname false = .ok n.hostname) ∧
        (n.ipv4Address ≠ [] → networkIdentity n.ipv4Address true = .ok n.ipv4Address) := by
  intro hclaim
  have hname := (hclaim labelled isDotted labelled_checksHostNames underscored underscored underscored_accepted).1
  revert hname
  decide +kernel

theorem underscored_addresses : networkIdentity underscored.ipv4Address true = .ok underscored.ipv4Address ∧
    ¬ Launchable underscored.hostname := by
  obtain ⟨hip, hhost, -⟩ := saved_identity_accepted labelled_checksHostNames underscored_accepted
  refine ⟨hip (by decide) true, ?_⟩
  rw [← hhost (by decide)]
  decide +kernel

end MythLab.Connections.ExternalConnections
