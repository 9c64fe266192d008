/-
  MythLab.App.ConnectionsViewModel — reloading the connections page.

  `LoadAsync` reads the stores, then clears and refills each of the page's three lists in
  turn. It gives way at its awaits: after each read, before each credential row, before
  each row of a profile that another program opens, and after clearing the known hosts.
  The page's own commands and the shell's reload are not under one flag, so any number of
  loads may run at once, on the same lists.

  Proved (`loads_exact`), when all loads have completed over unchanged stores: the lists
  hold exactly one row for each stored credential, profile and known host, in stored
  order, if and only if each list was cleared last while no other load had rows to add to
  it. `overlapping_loads_duplicate` is a run where one had.
-/
import MythLab.Lib.Machine
import MythLab.Lib.Refill
import MythLab.Ssh.KnownHosts
import MythLab.Storage.Repository

namespace MythLab.App.ConnectionsViewModel

open Lib Lib.Refill Dotnet Devices Connections Credentials Storage Ssh

structure CredentialRow where
  credential : CredentialReference
  availability : Str
  deriving DecidableEq, Repr

structure ProfileRow where
  profile : ConnectionProfile
  deviceName : Str
  credentialLabel : Str
  launcherStatus : Str
  deriving DecidableEq, Repr

/-- The lists of the page. -/
structure Page where
  credentials : List CredentialRow
  profiles : List ProfileRow
  knownHosts : List KnownHost

/-- What the loads read. -/
structure Stores where
  db : Database
  hosts : List KnownHost
  /-- There is a service for connections that other programs open. -/
  hasExternal : Bool

/-- What a load has read. -/
structure Saved where
  credentials : List CredentialReference
  profiles : List ConnectionProfile
  devices : List Device

/-- Where a load waits. -/
inductive Load where
  | listingCredentials
  | listingProfiles (credentials : List CredentialReference)
  | listingDevices (credentials : List CredentialReference) (profiles : List ConnectionProfile)
  /-- For the availability of the first of these. -/
  | inspecting (saved : Saved) (rest : List CredentialReference)
  | launching (saved : Saved) (rest : List ConnectionProfile)
  | listingHosts
  | completed

structure State where
  page : Page
  loads : List Load

inductive Event where
  | start
  | credentialsListed (i : Nat)
  | profilesListed (i : Nat)
  | devicesListed (i : Nat)
  | inspected (i : Nat) (status : SecretStatus)
  | launcher (i : Nat) (detail : Str)
  | hostsListed (i : Nat)
  deriving DecidableEq, Repr

/-! ## Rows -/

def statusName : SecretStatus → Str
  | .available => str "Available"
  | .missing => str "Missing"
  | .accessDenied => str "AccessDenied"
  | .storeError => str "StoreError"

def credentialRow (credential : CredentialReference) (status : SecretStatus) : CredentialRow where
  credential := credential
  availability :=
    if status = .missing ∧ credential.authentication = .privateKey then str "No saved passphrase (optional)"
    else if status = .missing then str "Missing credential — enter / recreate"
    else statusName status

def profileRow (saved : Saved) (profile : ConnectionProfile) (launcherStatus : Str) : ProfileRow where
  profile := profile
  deviceName :=
    ((saved.devices.find? fun d => d.id = profile.deviceId).map (·.displayName)).getD (str "Missing device")
  credentialLabel :=
    if profile.kind = .ssh then
      ((saved.credentials.find? fun c => some c.id = profile.credentialId).map (·.displayLabel)).getD
        (str "Missing credential")
    else str "External application"
  launcherStatus := launcherStatus

/-! ## Loads -/

section Loads

variable (stores : Stores)

/-- The row of the profile is added without waiting. -/
def immediate (profile : ConnectionProfile) : Bool := profile.kind = .ssh || !stores.hasExternal

def immediateStatus (profile : ConnectionProfile) : Str :=
  if profile.kind = .ssh then str "Integrated SSH" else str "Launcher unavailable"

/-- Clear the known hosts, and wait for them. -/
def clearHosts (page : Page) : Page × Load := ({ page with knownHosts := [] }, .listingHosts)

/-- The loop over the profiles, up to the next wait. -/
def fillProfiles (saved : Saved) : Page → List ConnectionProfile → Page × Load
  | page, [] => clearHosts page
  | page, profile :: rest =>
    if immediate stores profile then
      fillProfiles saved
        { page with profiles := page.profiles ++ [profileRow saved profile (immediateStatus profile)] } rest
    else (page, .launching saved (profile :: rest))

def clearProfiles (saved : Saved) (page : Page) : Page × Load :=
  fillProfiles stores saved { page with profiles := [] } saved.profiles

/-- The loop over the credentials: every row is waited for. -/
def fillCredentials (saved : Saved) (page : Page) : List CredentialReference → Page × Load
  | [] => clearProfiles stores saved page
  | rest => (page, .inspecting saved rest)

def clearCredentials (saved : Saved) (page : Page) : Page × Load :=
  fillCredentials stores saved { page with credentials := [] } saved.credentials

/-- What a load does when the event it waits for comes, up to its next wait. -/
def goOn (page : Page) : Load → Event → Option (Page × Load)
  | .listingCredentials, .credentialsListed _ => some (page, .listingProfiles (Repository.listCredentials stores.db))
  | .listingProfiles credentials, .profilesListed _ =>
    some (page, .listingDevices credentials (Repository.listProfiles stores.db))
  | .listingDevices credentials profiles, .devicesListed _ =>
    some (clearCredentials stores ⟨credentials, profiles, Repository.readDevices stores.db⟩ page)
  | .inspecting saved (credential :: rest), .inspected _ status =>
    some (fillCredentials stores saved
      { page with credentials := page.credentials ++ [credentialRow credential status] } rest)
  | .launching saved (profile :: rest), .launcher _ detail =>
    some (fillProfiles stores saved { page with profiles := page.profiles ++ [profileRow saved profile detail] } rest)
  | .listingHosts, .hostsListed _ => some ({ page with knownHosts := page.knownHosts ++ stores.hosts }, .completed)
  | _, _ => none

/-- The load an event is for. -/
def Event.load? : Event → Option Nat
  | .start => none
  | .credentialsListed i | .profilesListed i | .devicesListed i | .inspected i _ | .launcher i _ | .hostsListed i =>
    some i

def step (s : State) (e : Event) : Option State :=
  match e.load? with
  | none => some { s with loads := s.loads ++ [.listingCredentials] }
  | some i =>
    match s.loads[i]? with
    | some load => (goOn stores s.page load e).map fun r => ⟨r.1, s.loads.set i r.2⟩
    | none => none

/-- Any page, and no load running. -/
def Start (s : State) : Prop := s.loads = []

def reload : Machine State Event := ⟨Start, step stores⟩

end Loads

/-! ## The three lists -/

section Columns

variable {stores : Stores}

/-- What a load has read is what is stored. -/
def Load.Ok (stores : Stores) : Load → Prop
  | .listingProfiles credentials => credentials = Repository.listCredentials stores.db
  | .listingDevices credentials profiles =>
    credentials = Repository.listCredentials stores.db ∧ profiles = Repository.listProfiles stores.db
  | .inspecting saved _ => saved.profiles = Repository.listProfiles stores.db
  | _ => True

/-- A load on the list of credentials. -/
def Load.credentials : Load → Actor CredentialReference
  | .listingCredentials | .listingProfiles _ | .listingDevices _ _ => .waiting
  | .inspecting _ rest => ⟨true, rest⟩
  | _ => ⟨true, []⟩

/-- A load on the list of profiles. -/
def Load.profiles : Load → Actor ConnectionProfile
  | .listingCredentials | .listingProfiles _ | .listingDevices _ _ | .inspecting _ _ => .waiting
  | .launching _ rest => ⟨true, rest⟩
  | _ => ⟨true, []⟩

/-- A load on the list of known hosts. -/
def Load.hosts (stores : Stores) : Load → Actor KnownHost
  | .listingHosts => ⟨true, stores.hosts⟩
  | .completed => ⟨true, []⟩
  | _ => .waiting

/-- The credentials the page has rows for. -/
def Page.shownCredentials (page : Page) : List CredentialReference := page.credentials.map (·.credential)

def Page.shownProfiles (page : Page) : List ConnectionProfile := page.profiles.map (·.profile)

theorem fillProfiles_credentials (stores : Stores) (saved : Saved) (page : Page) (rest : List ConnectionProfile) :
    (fillProfiles stores saved page rest).1.credentials = page.credentials ∧
      (fillProfiles stores saved page rest).2.credentials = ⟨true, []⟩ := by
  induction rest generalizing page with
  | nil => exact ⟨rfl, rfl⟩
  | cons profile rest ih =>
    unfold fillProfiles
    split
    · exact ih _
    · exact ⟨rfl, rfl⟩

/-- The rows added without waiting, and those that are left. -/
theorem fillProfiles_profiles (stores : Stores) (saved : Saved) (page : Page) (rest : List ConnectionProfile) :
    ∃ part left, part ++ left = rest ∧
      (fillProfiles stores saved page rest).1.shownProfiles = page.shownProfiles ++ part ∧
      (fillProfiles stores saved page rest).2.profiles = ⟨true, left⟩ := by
  induction rest generalizing page with
  | nil => exact ⟨[], [], rfl, (List.append_nil _).symm, rfl⟩
  | cons profile rest ih =>
    unfold fillProfiles
    split
    · obtain ⟨part, left, hrest, hshown, hleft⟩ :=
        ih { page with profiles := page.profiles ++ [profileRow saved profile (immediateStatus profile)] }
      refine ⟨profile :: part, left, by rw [List.cons_append, hrest], ?_, hleft⟩
      rw [hshown]
      simp [Page.shownProfiles, profileRow]
    · exact ⟨[], profile :: rest, rfl, (List.append_nil _).symm, rfl⟩

theorem fillProfiles_hosts (saved : Saved) (page : Page) (rest : List ConnectionProfile) :
    Local stores.hosts page.knownHosts .waiting (fillProfiles stores saved page rest).1.knownHosts
      ((fillProfiles stores saved page rest).2.hosts stores) := by
  induction rest generalizing page with
  | nil => exact .clear _ [] stores.hosts rfl
  | cons profile rest ih =>
    unfold fillProfiles
    split
    · exact ih { page with profiles := page.profiles ++ [profileRow saved profile (immediateStatus profile)] }
    · exact .stay _ _

theorem fillCredentials_credentials (stores : Stores) (saved : Saved) (page : Page) (rest : List CredentialReference) :
    (fillCredentials stores saved page rest).1.credentials = page.credentials ∧
      (fillCredentials stores saved page rest).2.credentials = ⟨true, rest⟩ := by
  cases rest with
  | nil => exact fillProfiles_credentials stores saved { page with profiles := [] } saved.profiles
  | cons credential rest => exact ⟨rfl, rfl⟩

theorem fillCredentials_profiles {saved : Saved} (hsaved : saved.profiles = Repository.listProfiles stores.db)
    (page : Page) (rest : List CredentialReference) :
    Local (Repository.listProfiles stores.db) page.shownProfiles .waiting
      (fillCredentials stores saved page rest).1.shownProfiles
      (fillCredentials stores saved page rest).2.profiles := by
  cases rest with
  | nil =>
    obtain ⟨part, left, hrest, hshown, hleft⟩ :=
      fillProfiles_profiles stores saved { page with profiles := [] } saved.profiles
    show Local _ _ _ (fillProfiles stores saved { page with profiles := [] } saved.profiles).1.shownProfiles
      (fillProfiles stores saved { page with profiles := [] } saved.profiles).2.profiles
    rw [hshown, hleft]
    exact .clear _ part left (hrest.trans hsaved)
  | cons credential rest => exact .stay _ _

theorem fillCredentials_hosts (saved : Saved) (page : Page) (rest : List CredentialReference) :
    Local stores.hosts page.knownHosts .waiting (fillCredentials stores saved page rest).1.knownHosts
      ((fillCredentials stores saved page rest).2.hosts stores) := by
  cases rest with
  | nil => exact fillProfiles_hosts saved { page with profiles := [] } saved.profiles
  | cons credential rest => exact .stay _ _

/-- What a load has read stays what is stored. -/
theorem fillProfiles_ok (saved : Saved) (page : Page) (rest : List ConnectionProfile) :
    (fillProfiles stores saved page rest).2.Ok stores := by
  induction rest generalizing page with
  | nil => trivial
  | cons profile rest ih =>
    unfold fillProfiles
    split
    · exact ih _
    · trivial

theorem fillCredentials_ok {saved : Saved} (hsaved : saved.profiles = Repository.listProfiles stores.db) (page : Page)
    (rest : List CredentialReference) : (fillCredentials stores saved page rest).2.Ok stores := by
  cases rest with
  | nil => exact fillProfiles_ok saved _ saved.profiles
  | cons credential rest => exact hsaved

theorem goOn_ok {page : Page} {load : Load} {e : Event} {r : Page × Load} (hok : load.Ok stores)
    (h : goOn stores page load e = some r) : r.2.Ok stores := by
  revert h
  fun_cases goOn stores page load e with
  | case1 => intro h; cases h; rfl
  | case2 credentials => intro h; cases h; exact ⟨hok, rfl⟩
  | case3 credentials profiles =>
    intro h
    obtain rfl := Option.some.inj h
    exact fillCredentials_ok hok.2 _ _
  | case4 saved credential rest i status =>
    intro h
    obtain rfl := Option.some.inj h
    exact fillCredentials_ok hok _ _
  | case5 saved profile rest i detail =>
    intro h
    obtain rfl := Option.some.inj h
    exact fillProfiles_ok saved _ rest
  | case6 => intro h; cases h; trivial
  | case7 => intro h; cases h

theorem goOn_credentials {page : Page} {load : Load} {e : Event} {r : Page × Load} (hok : load.Ok stores)
    (h : goOn stores page load e = some r) :
    Local (Repository.listCredentials stores.db) page.shownCredentials load.credentials r.1.shownCredentials
      r.2.credentials := by
  revert h
  fun_cases goOn stores page load e with
  | case1 => intro h; cases h; exact .stay _ _
  | case2 credentials => intro h; cases h; exact .stay _ _
  | case3 credentials profiles =>
    intro h
    obtain rfl := Option.some.inj h
    obtain ⟨hshown, hleft⟩ := fillCredentials_credentials stores
      ⟨credentials, profiles, Repository.readDevices stores.db⟩ { page with credentials := [] } credentials
    unfold clearCredentials Page.shownCredentials
    rw [hshown, hleft]
    exact .clear _ [] credentials hok.1
  | case4 saved credential rest i status =>
    intro h
    obtain rfl := Option.some.inj h
    obtain ⟨hshown, hleft⟩ := fillCredentials_credentials stores saved
      { page with credentials := page.credentials ++ [credentialRow credential status] } rest
    unfold Page.shownCredentials
    rw [hshown, hleft, List.map_append]
    exact .add _ [credential] rest
  | case5 saved profile rest i detail =>
    intro h
    obtain rfl := Option.some.inj h
    obtain ⟨hshown, hleft⟩ := fillProfiles_credentials stores saved
      { page with profiles := page.profiles ++ [profileRow saved profile detail] } rest
    unfold Page.shownCredentials
    rw [hshown, hleft]
    exact .stay _ _
  | case6 => intro h; cases h; exact .stay _ _
  | case7 => intro h; cases h

theorem goOn_profiles {page : Page} {load : Load} {e : Event} {r : Page × Load} (hok : load.Ok stores)
    (h : goOn stores page load e = some r) :
    Local (Repository.listProfiles stores.db) page.shownProfiles load.profiles r.1.shownProfiles r.2.profiles := by
  revert h
  fun_cases goOn stores page load e with
  | case1 => intro h; cases h; exact .stay _ _
  | case2 credentials => intro h; cases h; exact .stay _ _
  | case3 credentials profiles =>
    intro h
    obtain rfl := Option.some.inj h
    exact fillCredentials_profiles hok.2 { page with credentials := [] } credentials
  | case4 saved credential rest i status =>
    intro h
    obtain rfl := Option.some.inj h
    exact fillCredentials_profiles hok
      { page with credentials := page.credentials ++ [credentialRow credential status] } rest
  | case5 saved profile rest i detail =>
    intro h
    obtain rfl := Option.some.inj h
    obtain ⟨part, left, rfl, hshown, hleft⟩ := fillProfiles_profiles stores saved
      { page with profiles := page.profiles ++ [profileRow saved profile detail] } rest
    rw [hshown, hleft]
    have hrow : Page.shownProfiles { page with profiles := page.profiles ++ [profileRow saved profile detail] } =
        page.shownProfiles ++ [profile] := by simp [Page.shownProfiles, profileRow]
    rw [hrow, List.append_assoc]
    exact .add _ (profile :: part) left
  | case6 => intro h; cases h; exact .stay _ _
  | case7 => intro h; cases h

theorem goOn_hosts {page : Page} {load : Load} {e : Event} {r : Page × Load}
    (h : goOn stores page load e = some r) :
    Local stores.hosts page.knownHosts (load.hosts stores) r.1.knownHosts (r.2.hosts stores) := by
  revert h
  fun_cases goOn stores page load e with
  | case1 => intro h; cases h; exact .stay _ _
  | case2 credentials => intro h; cases h; exact .stay _ _
  | case3 credentials profiles =>
    intro h
    obtain rfl := Option.some.inj h
    exact fillCredentials_hosts _ { page with credentials := [] } credentials
  | case4 saved credential rest i status =>
    intro h
    obtain rfl := Option.some.inj h
    exact fillCredentials_hosts saved
      { page with credentials := page.credentials ++ [credentialRow credential status] } rest
  | case5 saved profile rest i detail =>
    intro h
    obtain rfl := Option.some.inj h
    exact fillProfiles_hosts saved { page with profiles := page.profiles ++ [profileRow saved profile detail] } rest
  | case6 =>
    intro h
    cases h
    have hadd : Local stores.hosts page.knownHosts ⟨true, stores.hosts ++ []⟩ _ _ := .add _ _ _
    rwa [List.append_nil] at hadd
  | case7 => intro h; cases h

/-- One of the lists: what it shows, what a load does to it, and what it is to show. -/
structure Column (stores : Stores) (α : Type) where
  shown : Page → List α
  actor : Load → Actor α
  full : List α
  waiting : actor .listingCredentials = .waiting
  completed : actor .completed = ⟨true, []⟩
  goOn {page : Page} {load : Load} {e : Event} {r : Page × Load} : load.Ok stores →
    goOn stores page load e = some r → Local full (shown page) (actor load) (shown r.1) (actor r.2)

def credentialColumn (stores : Stores) : Column stores CredentialReference where
  shown := Page.shownCredentials
  actor := Load.credentials
  full := Repository.listCredentials stores.db
  waiting := rfl
  completed := rfl
  goOn := goOn_credentials

def profileColumn (stores : Stores) : Column stores ConnectionProfile where
  shown := Page.shownProfiles
  actor := Load.profiles
  full := Repository.listProfiles stores.db
  waiting := rfl
  completed := rfl
  goOn := goOn_profiles

def hostColumn (stores : Stores) : Column stores KnownHost where
  shown := Page.knownHosts
  actor := Load.hosts stores
  full := stores.hosts
  waiting := rfl
  completed := rfl
  goOn _ h := goOn_hosts h

end Columns

/-! ## Runs -/

theorem step_cases {stores : Stores} {s s' : State} {e : Event} (h : (reload stores).step s e = some s') :
    (e.load? = none ∧ s' = { s with loads := s.loads ++ [.listingCredentials] }) ∨
    ∃ i load r, e.load? = some i ∧ s.loads[i]? = some load ∧ goOn stores s.page load e = some r ∧
      s' = ⟨r.1, s.loads.set i r.2⟩ := by
  change step stores s e = some s' at h
  unfold step at h
  split at h
  · next he => exact Or.inl ⟨he, (Option.some.inj h).symm⟩
  · next i he =>
    split at h
    · next load hload =>
      obtain ⟨r, hr, rfl⟩ := Option.map_eq_some_iff.mp h
      exact Or.inr ⟨i, load, r, he, hload, hr, rfl⟩
    · cases h

theorem loads_ok {stores : Stores} {s : State} (h : (reload stores).Reach s) : ∀ load ∈ s.loads, load.Ok stores := by
  refine h.inv (I := fun s => ∀ load ∈ s.loads, load.Ok stores) ?_ ?_
  · intro s hs load hload
    change s.loads = [] at hs
    simp [hs] at hload
  · intro s e s' hok hstep
    rcases step_cases hstep with ⟨-, rfl⟩ | ⟨i, load, r, -, hload, hr, rfl⟩
    · exact forall_snoc hok trivial
    · intro l hl
      rcases List.mem_or_eq_of_mem_set hl with hl | rfl
      · exact hok l hl
      · exact goOn_ok (hok load (List.mem_of_getElem? hload)) hr

section Crowd

variable {stores : Stores} {α : Type} (col : Column stores α)

/-- The event lets a load clear the list. -/
def Column.clears (s : State) (e : Event) : Bool :=
  (e.load?.bind fun i => s.loads[i]?).any fun load =>
    (ConnectionsViewModel.goOn stores s.page load e).any fun r => !(col.actor load).cleared && (col.actor r.2).cleared

/-- The rows that the loads still have to add to the list. -/
def Column.pending (s : State) : Nat := total (s.loads.map col.actor)

/-- The rows that were still to be added when the list was cleared last. -/
def Column.crowd (log : List (State × Event)) : Option Nat :=
  (Machine.last col.clears log).map fun p => col.pending p.1

/-- The list was cleared last while another load had rows to add to it. -/
def Column.Crowded (log : List (State × Event)) : Prop :=
  ∃ p, Machine.last col.clears log = some p ∧ ∃ load ∈ p.1.loads, (col.actor load).pending ≠ []

theorem Column.crowd_snoc (log : List (State × Event)) (s : State) (e : Event) :
    col.crowd (log ++ [(s, e)]) = if col.clears s e then some (col.pending s) else col.crowd log := by
  rw [Column.crowd, Machine.last_snoc]
  split <;> rfl

theorem Column.crowded_iff {log : List (State × Event)} {crowd : Nat} (h : col.crowd log = some crowd) :
    col.Crowded log ↔ crowd ≠ 0 := by
  obtain ⟨p, hp, rfl⟩ := Option.map_eq_some_iff.mp h
  have hzero : col.pending p.1 = 0 ↔ ∀ load ∈ p.1.loads, (col.actor load).pending = [] := by
    simp [Column.pending, total_zero]
  rw [Ne, hzero]
  constructor
  · rintro ⟨q, hq, load, hload, hne⟩ hall
    obtain rfl : p = q := Option.some.inj (hp.symm.trans hq)
    exact hne (hall load hload)
  · intro hall
    push Not at hall
    exact ⟨p, hp, hall⟩

/-- Every run: the list shows what the loads have added since it was cleared last. -/
theorem Column.shows {log : List (State × Event)} {s : State} (h : (reload stores).Runs log s) :
    Shows col.full (col.shown s.page) (s.loads.map col.actor) (col.crowd log) := by
  refine h.log_inv (I := fun log s => Shows col.full (col.shown s.page) (s.loads.map col.actor) (col.crowd log)) ?_ ?_
  · intro s hs
    change s.loads = [] at hs
    rw [hs]
    intro a ha
    cases ha
  · intro log s e s' hrun hshows hstep
    rw [col.crowd_snoc]
    rcases step_cases hstep with ⟨he, rfl⟩ | ⟨i, load, r, he, hload, hr, rfl⟩
    · have hclears : col.clears s e = false := by simp [Column.clears, he]
      rw [hclears, List.map_append, List.map_singleton, col.waiting]
      exact hshows.join
    · have hclears : col.clears s e = (!(col.actor load).cleared && (col.actor r.2).cleared) := by
        simp [Column.clears, he, hload, hr]
      have hactor : (s.loads.map col.actor)[i]? = some (col.actor load) := by
        rw [List.getElem?_map, hload]
        rfl
      have hok := loads_ok ⟨log, hrun⟩ load (List.mem_of_getElem? hload)
      rw [hclears, List.map_set]
      exact hshows.step hactor (col.goOn hok hr)

/-- When all loads have completed. -/
theorem Column.exact {log : List (State × Event)} {s : State} (h : (reload stores).Runs log s) (hne : s.loads ≠ [])
    (hdone : ∀ load ∈ s.loads, load = .completed) : col.shown s.page = col.full ↔ ¬ col.Crowded log := by
  have hshows := col.shows h
  have hactors : ∀ a ∈ s.loads.map col.actor, a = ⟨true, []⟩ := by
    intro a ha
    obtain ⟨load, hload, rfl⟩ := List.mem_map.mp ha
    rw [hdone load hload, col.completed]
  cases hcrowd : col.crowd log with
  | none =>
    -- a completed load has cleared the list
    rw [hcrowd] at hshows
    obtain ⟨load, hload⟩ := List.exists_mem_of_ne_nil _ hne
    have hmem := List.mem_map_of_mem (f := col.actor) hload
    exact (nomatch (hactors _ hmem).symm.trans (hshows _ hmem))
  | some crowd =>
    rw [hcrowd] at hshows
    have hexact := Filled.exact hshows (fun a ha => by rw [hactors a ha])
    rw [hexact, col.crowded_iff hcrowd, not_not]

end Crowd

/-- The lists are exact if and only if none of them was cleared last under another load's
    rows. -/
theorem loads_exact {stores : Stores} {log : List (State × Event)} {s : State} (h : (reload stores).Runs log s)
    (hne : s.loads ≠ []) (hdone : ∀ load ∈ s.loads, load = .completed) :
    (s.page.shownCredentials = Repository.listCredentials stores.db ∧
      s.page.shownProfiles = Repository.listProfiles stores.db ∧ s.page.knownHosts = stores.hosts) ↔
    ¬ (credentialColumn stores).Crowded log ∧ ¬ (profileColumn stores).Crowded log ∧
      ¬ (hostColumn stores).Crowded log :=
  and_congr ((credentialColumn stores).exact h hne hdone)
    (and_congr ((profileColumn stores).exact h hne hdone) ((hostColumn stores).exact h hne hdone))

/-! ## Two loads -/

def root : CredentialReference := { id := 3, displayLabel := str "root", username := str "root" }

def oneCredential : Stores where
  db := { Database.empty with credentials := ⟨[root], by decide⟩ }
  hosts := []
  hasExternal := false

def emptyPage : State := ⟨⟨[], [], []⟩, []⟩

def readStores (i : Nat) : List Event := [.credentialsListed i, .profilesListed i, .devicesListed i]

/-- The second load begins when the first has completed. -/
def oneByOne : List Event :=
  .start :: readStores 0 ++ [.inspected 0 .available, .hostsListed 0] ++
    .start :: readStores 1 ++ [.inspected 1 .available, .hostsListed 1]

theorem one_by_one_exact : ∃ log s, (reload oneCredential).Runs log s ∧ s.loads.length = 2 ∧
    s.page.shownCredentials = Repository.listCredentials oneCredential.db ∧
    s.page.shownProfiles = Repository.listProfiles oneCredential.db ∧ s.page.knownHosts = oneCredential.hosts := by
  have h := Machine.runs_of_exec (M := reload oneCredential) (s := emptyPage) rfl
    (show Machine.exec _ _ oneByOne = _ from rfl)
  have hfree {α : Type} (col : Column oneCredential α) {log : List (State × Event)} (hcrowd : col.crowd log = some 0) :
      ¬ col.Crowded log := fun hcrowded => (col.crowded_iff hcrowd).mp hcrowded rfl
  refine ⟨_, _, h, rfl, (loads_exact h (by intro hnil; cases hnil) ?_).mpr ⟨hfree _ rfl, hfree _ rfl, hfree _ rfl⟩⟩
  intro load hload
  rcases List.mem_cons.mp hload with rfl | hload
  · rfl
  · exact List.mem_singleton.mp hload

/-- The second load clears the credentials while the first still has one to add. -/
def overlapping : List Event :=
  [.start, .start] ++ readStores 0 ++ readStores 1 ++
    [.inspected 0 .available, .inspected 1 .available, .hostsListed 0, .hostsListed 1]

theorem overlapping_loads_duplicate : ∃ log s, (reload oneCredential).Runs log s ∧
    s.loads = [.completed, .completed] ∧ Repository.listCredentials oneCredential.db = [root] ∧
    s.page.shownCredentials = [root, root] := by
  have h := Machine.runs_of_exec (M := reload oneCredential) (s := emptyPage) rfl
    (show Machine.exec _ _ overlapping = _ from rfl)
  exact ⟨_, _, h, rfl, rfl, rfl⟩

end MythLab.App.ConnectionsViewModel
