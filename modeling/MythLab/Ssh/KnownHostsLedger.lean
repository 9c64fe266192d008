/-
  MythLab.Ssh.KnownHostsLedger — what the known-hosts file says after any calls.

  The ledger is what the calls mean: for a host and port, the identity last trusted and
  not removed since. Calls arrive, wait at the gate and work in any order; any call to the
  file system may throw, and a call that throws has changed nothing.

  Proved (`written_is_readable`): while every trusted host text settles and no list grows
  beyond what the reader takes, the file is readable, has one record for a host and port,
  and judges every identity as the ledger does. A host text that does not settle makes
  the file unreadable (`unsettled_host_shuts_the_file`).
-/
import MythLab.Lib.Table
import MythLab.Ssh.KnownHostsReplacement

namespace MythLab.Ssh.KnownHostsStore

open Lib Dotnet KnownHosts

/-! ## The ledger -/

/-- The host and port that an identity is for. -/
def place (k : KnownHost) : Str × Int := (k.host, k.port)

/-- The identity last trusted for a host and port and not removed since. -/
abbrev Ledger := Str × Int → Option KnownHost

/-- After a call that returned. -/
def Ledger.after (l : Ledger) : Request → Ledger
  | .list => l
  | .trust host => Function.update l (place host) (some host)
  | .remove host => fun p => if l p = some host then none else l p

def Ledger.judge (l : Ledger) (incoming : KnownHost) : HostTrust :=
  match l (place incoming) with
  | none => .unknown
  | some k => if sameKey k incoming then .trusted else .changed

abbrev Log := List (World State Site × Event)

section Ledger

variable (fw : Framework) (json : Json) (faults : Nat → Fault Exn)

def entered (l : Ledger) (p : World State Site × Event) : Ledger :=
  match p.2 with
  | .finish i name =>
    match p.1.state.gate.inside[i]? with
    | some r => if threw (operation fw json faults name r p.1).1 then l else l.after r
    | none => l
  | _ => l

def ledger (log : Log) : Ledger := log.foldl (entered fw json faults) fun _ => none

end Ledger

/-- The identity was trusted in the run, or tried to be. -/
def TrustedIn (log : Log) (k : KnownHost) : Prop :=
  ∃ w i name, (w, .finish i name) ∈ log ∧ w.state.gate.inside[i]? = some (.trust k)

/-! ## The list as a table -/

section Table

variable {fw : Framework} {t : Table place} {host : KnownHost}

theorem mem_matching {k : KnownHost} : k ∈ matching t.rows host ↔ t.find (place host) = some k := by
  rw [Table.find_some_iff]
  simp [matching, place, Prod.ext_iff]

/-- A list with one record for a place judges as the table does. -/
theorem evaluate_rows (t : Table place) (incoming : KnownHost) :
    evaluate t.rows incoming = Ledger.judge t.find incoming := by
  unfold Ledger.judge
  cases hfind : t.find (place incoming) with
  | none =>
    refine evaluate_unknown.mpr (List.eq_nil_iff_forall_not_mem.mpr ?_)
    intro k hk
    rw [mem_matching, hfind] at hk
    cases hk
  | some k =>
    have hk : k ∈ matching t.rows incoming := mem_matching.mpr hfind
    have hrecorded : Recorded t.rows incoming ↔ sameKey k incoming = true := by
      constructor
      · rintro ⟨k', hk', hsame⟩
        rw [mem_matching, hfind] at hk'
        cases hk'
        exact hsame
      · exact fun hsame => ⟨k, hk, hsame⟩
    dsimp only
    split
    · rename_i hsame
      exact evaluate_trusted.mpr (hrecorded.mpr hsame)
    · rename_i hsame
      exact evaluate_changed.mpr ⟨List.ne_nil_of_mem hk, fun hr => hsame (hrecorded.mp hr)⟩

/-- The ledger after a call, if the list is the table before it. -/
theorem trust_table {updated : List KnownHost} (hhost : checkEntry fw (some host) = .ok host)
    (hrows : ∀ k ∈ t.rows, checkEntry fw (some k) = .ok k) (h : trust host t.rows = .ok updated) :
    ∃ t' : Table place, t'.rows = updated ∧ (∀ k ∈ t'.rows, k ∈ t.rows ∨ k = host) ∧
      t'.find = Ledger.after t.find (.trust host) := by
  have hjudge := evaluate_rows t host
  unfold Ledger.judge at hjudge
  unfold trust at h
  cases hfind : t.find (place host) with
  | none =>
    rw [hfind] at hjudge
    rw [hjudge] at h
    cases h
    refine ⟨t.upsert host, by rw [Table.upsert, dif_pos hfind], ?_, ?_⟩
    · intro k hk
      exact (Table.mem_upsert.mp hk).symm.imp_left And.left
    · funext p
      by_cases hp : p = place host
      · rw [hp]
        simp [Ledger.after]
      · rw [Table.find_upsert_ne t hp]
        simp [Ledger.after, hp]
  | some k =>
    rw [hfind] at hjudge
    dsimp only at hjudge
    split at hjudge
    · rename_i hsame
      rw [hjudge] at h
      cases h
      -- the record there is this identity already
      obtain ⟨hk, hplace⟩ := (Table.find_some_iff _ _ _).mp hfind
      obtain ⟨hh, hport⟩ := Prod.ext_iff.mp hplace
      obtain ⟨halgorithm, hkey⟩ := of_decide_eq_true hsame
      have hfingerprint := checkEntry_fingerprint (hrows k hk) hhost hkey
      obtain rfl : k = host := by
        cases k; cases host
        cases hh; cases hport; cases halgorithm; cases hkey; cases hfingerprint
        rfl
      exact ⟨t, rfl, fun _ hm => Or.inl hm, (Function.update_eq_self_iff.mpr hfind.symm).symm⟩
    · rw [hjudge] at h
      cases h

theorem remove_table {updated : List KnownHost} (h : remove host t.rows = .ok updated) :
    ∃ t' : Table place, t'.rows = updated ∧ (∀ k ∈ t'.rows, k ∈ t.rows) ∧
      t'.find = Ledger.after t.find (.remove host) := by
  cases h
  refine ⟨t.deleteWhere (· = host), by simp [Table.deleteWhere], ?_, ?_⟩
  · intro k hk
    exact (Table.mem_deleteWhere.mp hk).1
  · funext p
    rw [Table.find_deleteWhere]
    cases hfind : t.find p with
    | none => simp [Ledger.after, hfind]
    | some k =>
      by_cases hk : k = host <;> simp [Ledger.after, hfind, hk]

end Table

/-! ## What an operation does to the file -/

/-- The reader's bound. -/
def limit : Nat := 4 * 1024 * 1024

/-- The file holds this list, or there is no file yet. -/
def Holds (json : Json) (entries : List KnownHost) (s : State) : Prop :=
  s.files .knownHosts = none ∧ entries = [] ∨
    s.files .knownHosts = some (json.serialize entries) ∧ (json.serialize entries).length ≤ limit

section Specs

variable {fw : Framework} {json : Json} {faults : Nat → Fault Exn} {entries : List KnownHost} {w : World State Site}

theorem Holds.stored {s : State} (hholds : Holds json entries s)
    (hparse : parse fw json (json.serialize entries) = .ok entries) :
    stored fw json (s.files .knownHosts) = .ok entries := by
  rcases hholds with ⟨hfile, rfl⟩ | ⟨hfile, hlength⟩
  · rw [hfile]
    rfl
  · rw [hfile]
    exact throwIf_bind_ok_iff.mpr ⟨Nat.not_lt.mpr hlength, hparse⟩

/-- An update that returns has written the changed list, and one that throws nothing. -/
theorem update_files {change : List KnownHost → Except Exn (List KnownHost)} {name : Guid}
    (hholds : Holds json entries w.state) (hparse : parse fw json (json.serialize entries) = .ok entries)
    (hfresh : w.state.files (.temporary name) = none) (hgate : w.state.gate.permits = 0) :
    (update fw json faults change name).wp (fun r w' =>
      match r with
      | .ok _ => ∃ updated, change entries = .ok updated ∧ w'.state.files .knownHosts = some (json.serialize updated)
      | .error _ => w'.state.files .knownHosts = w.state.files .knownHosts) w := by
  refine Eff.wp_mono (update_replaces hfresh hgate) ?_
  intro r w' hreplaced
  rcases r with e | u
  · exact hreplaced.target_old
  · obtain ⟨b, ⟨entries', updated, hstored, hupdated, rfl⟩, hfile⟩ := hreplaced.target_new
    rw [hholds.stored hparse] at hstored
    cases hstored
    exact ⟨updated, hupdated, hfile⟩

theorem list_yields (hholds : Holds json entries w.state)
    (hparse : parse fw json (json.serialize entries) = .ok entries) (hgate : w.state.gate.permits = 0) :
    (list fw json faults).wp (fun r w' => w'.state.files = w.state.files ∧
      (r = .ok entries ∨ threw r = true ∧ ∃ n, faults n ≠ .none)) w := by
  unfold list
  rw [Eff.wp_finally]
  refine Eff.wp_mono read_yields ?_
  intro r w' ⟨hstate, hr⟩
  rw [hholds.stored hparse] at hr
  have hpermits : w'.state.gate.permits = 0 := by rw [hstate, hgate]
  refine Eff.wp_mono (release_runs hpermits) ?_
  intro r' v ⟨hr', hv⟩
  subst hr' hv
  refine ⟨?_, hr⟩
  show w'.state.files = w.state.files
  rw [hstate]

end Specs

/-! ## Runs -/

section Runs

variable (fw : Framework) (json : Json) (faults : Nat → Fault Exn)

/-- The store before the file is first written. -/
def fromNoFile : Machine (World State Site) Event :=
  ⟨fun w => Start w ∧ w.state.files .knownHosts = none, step fw json faults⟩

/-- The reader takes what the update would write. -/
def Fits (w : World State Site) (change : List KnownHost → Except Exn (List KnownHost)) : Prop :=
  ∀ entries updated, (read fw json (fun _ => .none) w).1 = .ok entries → change entries = .ok updated →
    (json.serialize updated).length ≤ limit

/-- Each trusted identity comes from `Identify`, and nothing else touches the file. -/
def FromIdentify (w : World State Site) : Event → Prop
  | .finish i _ =>
    match w.state.gate.inside[i]? with
    | some (.trust host) => ∃ text, Identified fw text host
    | _ => True
  | .edit _ => False
  | _ => True

/-- Moreover its host text settles, and the reader takes each list that is written. -/
def Meets (w : World State Site) : Event → Prop
  | .finish i _ =>
    match w.state.gate.inside[i]? with
    | some (.trust host) => (∃ text, Identified fw text host ∧ Settles text) ∧ Fits fw json w (trust host)
    | some (.remove host) => Fits fw json w (remove host)
    | _ => True
  | .edit _ => False
  | _ => True

end Runs

section Runs

variable {fw : Framework} {json : Json} {faults : Nat → Fault Exn} {log : Log} {w w' : World State Site} {e : Event}

/-- The list in the file is the ledger, as a table. -/
structure Shows (fw : Framework) (json : Json) (log : Log) (l : Ledger) (s : State) (t : Table place) : Prop where
  holds : Holds json t.rows s
  accepted : ∀ k ∈ t.rows, checkEntry fw (some k) = .ok k
  trusted : ∀ k ∈ t.rows, TrustedIn log k
  find : t.find = l

theorem TrustedIn.snoc {k : KnownHost} (h : TrustedIn log k) (p : World State Site × Event) : TrustedIn (log ++ [p]) k := by
  obtain ⟨w, i, name, hm, hin⟩ := h
  exact ⟨w, i, name, List.mem_append_left _ hm, hin⟩

theorem Shows.parse {l : Ledger} {s : State} {t : Table place} (h : Shows fw json log l s t)
    (hjson : json.RoundTrips (TrustedIn log)) : parse fw json (json.serialize t.rows) = .ok t.rows :=
  parse_serialize (hjson t.rows (List.Nodup.of_map _ t.nodup) h.trusted) h.accepted

theorem Shows.snoc {l : Ledger} {s : State} {t : Table place} (h : Shows fw json log l s t)
    (p : World State Site × Event) : Shows fw json (log ++ [p]) l s t :=
  ⟨h.holds, h.accepted, fun k hk => (h.trusted k hk).snoc p, h.find⟩

/-- Of the state only the file matters. -/
theorem Shows.congr {l : Ledger} {s s' : State} {t : Table place} (h : Shows fw json log l s t)
    (hfile : s'.files .knownHosts = s.files .knownHosts) : Shows fw json log l s' t := by
  refine ⟨?_, h.accepted, h.trusted, h.find⟩
  unfold Holds
  rw [hfile]
  exact h.holds

/-- An update leaves the file as it was, or has written the list that the ledger now is. -/
theorem Shows.update {l : Ledger} {name : Guid} {r : Request} {t : Table place} {p : World State Site × Event}
    (h : Shows fw json log l w.state t) (hjson : json.RoundTrips (TrustedIn log)) (hgate : w.state.gate.permits = 0)
    (hfresh : w.state.files (.temporary name) = none) (change : List KnownHost → Except Exn (List KnownHost))
    (hr : operation fw json faults name r = KnownHostsStore.update fw json faults change name)
    (hfits : Fits fw json w change)
    (hchange : ∀ updated, change t.rows = .ok updated → ∃ t' : Table place, t'.rows = updated ∧
      (∀ k ∈ t'.rows, k ∈ t.rows ∨ checkEntry fw (some k) = .ok k ∧ TrustedIn (log ++ [p]) k) ∧
      t'.find = Ledger.after t.find r) :
    ∃ t', Shows fw json (log ++ [p]) (if threw (operation fw json faults name r w).1 then l else l.after r)
      (operation fw json faults name r w).2.state t' := by
  have hparse := h.parse hjson
  have hread : (read fw json (fun _ => .none) w).1 = .ok t.rows := by
    have hspec : (read fw json (fun _ => .none)).wp _ w := read_yields
    exact hspec.eq_of_none.trans (h.holds.stored hparse)
  have hfiles : (operation fw json faults name r).wp _ w := hr ▸ update_files h.holds hparse hfresh hgate
  unfold Eff.wp at hfiles
  rcases hresult : (operation fw json faults name r w).1 with e | u
  · rw [hresult] at hfiles
    exact ⟨t, (h.congr hfiles).snoc p⟩
  · rw [hresult] at hfiles
    obtain ⟨updated, hupdated, hfile⟩ := hfiles
    obtain ⟨t', rfl, hrows, hfind⟩ := hchange updated hupdated
    refine ⟨t', Or.inr ⟨hfile, hfits _ _ hread hupdated⟩, ?_, ?_, ?_⟩
    · intro k hk
      exact (hrows k hk).elim (h.accepted k) And.left
    · intro k hk
      exact (hrows k hk).elim (fun hold => (h.trusted k hold).snoc p) And.right
    · rw [hfind, h.find]
      rfl

theorem ledger_snoc (log : Log) (p : World State Site × Event) :
    ledger fw json faults (log ++ [p]) = entered fw json faults (ledger fw json faults log) p := by
  simp [ledger]

theorem runs_store (h : (fromNoFile fw json faults).Runs log w) : (store fw json faults).Runs log w := by
  induction h with
  | init hs => exact .init hs.1
  | step e _ hs ih => exact .step e ih hs

theorem step_shows (hlower : Lowers fw) (hsound : GateSound w) {t : Table place}
    (hw : Shows fw json log (ledger fw json faults log) w.state t) (hjson : json.RoundTrips (TrustedIn log))
    (hmeets : Meets fw json w e) (hs : step fw json faults w e = some w') :
    ∃ t', Shows fw json (log ++ [(w, e)]) (ledger fw json faults (log ++ [(w, e)])) w'.state t' := by
  rw [ledger_snoc]
  cases e with
  | call r =>
    cases hs
    exact ⟨t, (hw.snoc (w, .call r)).congr rfl⟩
  | enter i =>
    obtain ⟨g, -, rfl⟩ := Option.map_eq_some_iff.mp hs
    exact ⟨t, (hw.snoc (w, .enter i)).congr rfl⟩
  | abandon i =>
    cases hs
    exact ⟨t, (hw.snoc (w, .abandon i)).congr rfl⟩
  | edit contents => exact hmeets.elim
  | finish i name =>
    simp only [step] at hs
    split at hs
    · rename_i r hr
      split at hs
      · rename_i hfresh
        cases hs
        obtain ⟨hgate, -⟩ := hsound.inside hr
        simp only [entered, hr]
        simp only [Meets, hr] at hmeets
        suffices hshows : ∃ t', Shows fw json (log ++ [(w, .finish i name)]) _
            (operation fw json faults name r w).2.state t' by
          obtain ⟨t', ht'⟩ := hshows
          exact ⟨t', ht'.congr rfl⟩
        cases r with
        | list =>
          have hlist : (operation fw json faults name .list).wp (fun _ w' =>
              w'.state.files = w.state.files) w :=
            Eff.wp_discard.mpr (Eff.wp_mono (list_yields hw.holds (hw.parse hjson) hgate) fun _ _ h => h.1)
          simp only [Ledger.after, ite_self]
          exact ⟨t, (hw.congr (congrFun hlist .knownHosts)).snoc _⟩
        | trust host =>
          obtain ⟨⟨text, hidentified, hsettles⟩, hfits⟩ := hmeets
          have hhost := checkEntry_identified hlower hidentified hsettles
          refine hw.update hjson hgate hfresh (trust host) rfl hfits ?_
          intro updated hupdated
          obtain ⟨t', hrows, hfrom, hfind⟩ := trust_table hhost hw.accepted hupdated
          refine ⟨t', hrows, ?_, hfind⟩
          intro k hk
          refine (hfrom k hk).imp_right ?_
          rintro rfl
          exact ⟨hhost, w, i, name, by simp, hr⟩
        | remove host =>
          refine hw.update hjson hgate hfresh (remove host) rfl hmeets ?_
          intro updated hupdated
          obtain ⟨t', hrows, hfrom, hfind⟩ := remove_table hupdated
          exact ⟨t', hrows, fun k hk => Or.inl (hfrom k hk), hfind⟩
      · cases hs
    · cases hs

theorem runs_shows (hlower : Lowers fw) (h : (fromNoFile fw json faults).Runs log w)
    (hmeets : Machine.Throughout (Meets fw json) log) (hjson : json.RoundTrips (TrustedIn log)) :
    ∃ t, Shows fw json log (ledger fw json faults log) w.state t := by
  induction h with
  | init hs => exact ⟨.empty, Or.inl ⟨hs.2, rfl⟩, nofun, nofun, rfl⟩
  | step e hr hs ih =>
    obtain ⟨hlog, he⟩ := (Machine.throughout_snoc _ _ _ _).mp hmeets
    have hbefore : json.RoundTrips (TrustedIn _) := fun entries hn ht => hjson entries hn fun k hk => (ht k hk).snoc _
    obtain ⟨t, ht⟩ := ih hlog hbefore
    exact step_shows hlower (runs_gateSound (runs_store hr)) ht hbefore he hs

/-- In every run from no file, whatever calls throw: if each trusted identity comes from a
    host text that settles and the reader takes each list that is written, then the file
    is readable, it has one record for a host and port, and an identity is judged by it as
    by the ledger. -/
theorem written_is_readable (fw : Framework) (hlower : Lowers fw) (json : Json) (faults : Nat → Fault Exn) (log : Log)
    (w : World State Site) (h : (fromNoFile fw json faults).Runs log w) (hjson : json.RoundTrips (TrustedIn log))
    (hmeets : Machine.Throughout (Meets fw json) log) :
    ∃ entries, (∀ g : Gate Request, g.permits = 0 → (list fw json (fun _ => .none) (onGate w g)).1 = .ok entries) ∧
      (entries.map place).Nodup ∧
      ∀ incoming, evaluate entries incoming = (ledger fw json faults log).judge incoming := by
  obtain ⟨t, ht⟩ := runs_shows hlower h hmeets hjson
  refine ⟨t.rows, ?_, t.nodup, ?_⟩
  · intro g hg
    have hlist : (list fw json (fun _ => .none)).wp _ (onGate w g) := list_yields ht.holds (ht.parse hjson) hg
    obtain ⟨-, hok | ⟨-, n, hn⟩⟩ := hlist
    · exact hok
    · exact absurd rfl hn
  · intro incoming
    rw [evaluate_rows, ht.find]

end Runs

/-! ## Two runs -/

/-- `Framework.ascii` with the digest of the key [4, 5, 6]. -/
def hashing : Framework :=
  { Framework.ascii with
    sha256 := fun _ => [120, 124, 121, 142, 57, 165, 188, 25, 16, 53, 91, 174, 109, 12, 216, 122, 54, 178, 225, 15, 208,
      32, 42, 131, 227, 187, 107, 0, 93, 168, 52, 114] }

theorem lowers_hashing : Lowers hashing := ⟨lowers_ascii.again, lowers_ascii.whiteSpace, lowers_ascii.fullStop⟩

/-- The key [4, 5, 6] of a host by this name. -/
def server (name : Str) : KnownHost := identify hashing name 22 (str "ssh-ed25519") [4, 5, 6]

theorem server_identified {name : Str} (h : isNullOrWhiteSpace name = false) : Identified hashing name (server name) :=
  ⟨h, 22, str "ssh-ed25519", [4, 5, 6], rfl, by decide, by decide, by decide, by decide⟩

/-- `Json.plain`, which also reads the file of one server. -/
def reading (name : Str) : Json :=
  { Json.plain with
    deserialize := fun bytes =>
      if bytes = Json.plain.serialize [server name] then .ok (some [some (server name)])
      else Json.plain.deserialize bytes }

theorem reading_roundTrips (name : Str) : (reading name).RoundTrips (· = server name) := by
  intro entries hnodup hentries
  match entries, hnodup, hentries with
  | [], _, _ => rfl
  | [k], _, hk =>
    obtain rfl := hk k List.mem_cons_self
    simp only [reading, if_true]
    rfl
  | k :: k' :: _, hnodup, hk =>
    have hsame : k = k' := (hk k (by simp)).trans (hk k' (by simp)).symm
    exact absurd hsame (by simp at hnodup; tauto)

/-- The server's call is inside the gate. -/
def trusting (name : Str) : World State Site := onGate fresh ⟨0, [], [.trust (server name)]⟩

/-- One server is trusted, and nothing else happens. -/
def trustLog (name : Str) : Log :=
  [(fresh, .call (.trust (server name))), (onGate fresh ⟨1, [.trust (server name)], []⟩, .enter 0),
    (trusting name, .finish 0 1)]

/-- After it. -/
def trustEnd (name : Str) : World State Site :=
  let w := (operation hashing (reading name) (fun _ => .none) 1 (.trust (server name)) (trusting name)).2
  onGate w (w.state.gate.leave 0)

theorem trust_runs (name : Str) : (fromNoFile hashing (reading name) fun _ => .none).Runs (trustLog name) (trustEnd name) := by
  have hstart : (fromNoFile hashing (reading name) fun _ => .none).Runs [] fresh := .init ⟨⟨rfl, rfl⟩, rfl⟩
  have hcalled := hstart.step (.call (.trust (server name))) rfl
  have hentered := hcalled.step (.enter 0) rfl
  exact hentered.step (.finish 0 1) rfl

theorem trustLog_hosts {name : Str} {k : KnownHost} (h : TrustedIn (trustLog name) k) : k = server name := by
  obtain ⟨w, i, file, hm, hin⟩ := h
  simp only [trustLog, List.mem_cons, Prod.mk.injEq, reduceCtorEq, and_false, List.not_mem_nil, or_false, false_or] at hm
  obtain ⟨rfl, hevent⟩ := hm
  cases hevent
  exact (Request.trust.inj (Option.some.inj hin)).symm

theorem trustLog_roundTrips (name : Str) : (reading name).RoundTrips (TrustedIn (trustLog name)) :=
  fun entries hnodup hentries => reading_roundTrips name entries hnodup fun k hk => trustLog_hosts (hentries k hk)

theorem trusted_server_is_readable : ∃ log w, (fromNoFile hashing (reading (str "nas")) fun _ => .none).Runs log w ∧
    ∃ entries, (∀ g : Gate Request, g.permits = 0 →
        (list hashing (reading (str "nas")) (fun _ => .none) (onGate w g)).1 = .ok entries) ∧
      evaluate entries (server (str "nas")) = .trusted := by
  have hfits : Fits hashing (reading (str "nas")) (trusting (str "nas")) (trust (server (str "nas"))) := by
    intro entries updated hread hupdated
    cases hread
    cases hupdated
    decide +kernel
  have hmeets : Machine.Throughout (Meets hashing (reading (str "nas"))) (trustLog (str "nas")) := by
    simp only [Machine.Throughout, trustLog, List.forall_mem_cons]
    exact ⟨trivial, trivial, ⟨⟨str "nas", server_identified (by decide), by decide⟩, hfits⟩, List.forall_mem_nil _⟩
  obtain ⟨entries, hlist, -, hjudge⟩ := written_is_readable hashing lowers_hashing (reading (str "nas")) (fun _ => .none)
    (trustLog (str "nas")) (trustEnd (str "nas")) (trust_runs _) (trustLog_roundTrips _) hmeets
  refine ⟨_, _, trust_runs _, entries, hlist, (hjudge _).trans ?_⟩
  decide +kernel

/-- The full stop hides the space before it: what is written is not what is read back. -/
theorem unsettled_host_shuts_the_file : ¬ ∀ (fw : Framework) (_ : Lowers fw) (json : Json) (faults : Nat → Fault Exn)
    (log : Log) (w : World State Site), (fromNoFile fw json faults).Runs log w → json.RoundTrips (TrustedIn log) →
    Machine.Throughout (FromIdentify fw) log →
    ∃ entries, (∀ g : Gate Request, g.permits = 0 → (list fw json (fun _ => .none) (onGate w g)).1 = .ok entries) ∧
      (entries.map place).Nodup ∧
      ∀ incoming, evaluate entries incoming = (ledger fw json faults log).judge incoming := by
  intro hclaim
  have hcalls : Machine.Throughout (FromIdentify hashing) (trustLog (str "nas .")) := by
    simp only [Machine.Throughout, trustLog, List.forall_mem_cons]
    exact ⟨trivial, trivial, ⟨str "nas .", server_identified (by decide)⟩, List.forall_mem_nil _⟩
  obtain ⟨entries, hlist, -⟩ := hclaim hashing lowers_hashing (reading (str "nas .")) (fun _ => .none) (trustLog (str "nas ."))
    (trustEnd (str "nas .")) (trust_runs _) (trustLog_roundTrips _) hcalls
  have hthrew : threw (list hashing (reading (str "nas .")) (fun _ => .none)
      (onGate (trustEnd (str "nas .")) ⟨0, [], []⟩)).1 = true := by decide +kernel
  rw [hlist ⟨0, [], []⟩ rfl] at hthrew
  cases hthrew

end MythLab.Ssh.KnownHostsStore
