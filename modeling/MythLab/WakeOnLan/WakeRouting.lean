/-
  MythLab.WakeOnLan.WakeRouting — the interface a wake packet leaves by, and the broadcast
  address it is sent to.

  `select` narrows the list of interfaces filter by filter and takes the one that is left.
  Proved (`select_ok`): it takes the only entry that passes the filters, and sends to the
  directed broadcast of that entry or to the limited broadcast where that was configured;
  the order of the list does not matter (`select_perm`).
-/
import MythLab.Lib.Where
import MythLab.Discovery.DiscoveryModels

namespace MythLab.WakeOnLan

open Lib Dotnet Devices Discovery

structure WakeDestination where
  interface : LocalNetworkInterface
  broadcastAddress : Str
  port : Int
  deriving DecidableEq, Repr

namespace WakeRouting

def limitedBroadcast : Str := str "255.255.255.255"

/-! ## The filters -/

def hasBroadcast (n : LocalNetworkInterface) : Except Exn Bool := do
  let subnet ← n.subnet
  pure (subnet.prefixLength < 31)

def broadcastsTo (broadcast : Str) (n : LocalNetworkInterface) : Except Exn Bool := do
  let subnet ← n.subnet
  pure (Ipv4Subnet.format subnet.broadcast = broadcast)

def containsHost (address : Str) (n : LocalNetworkInterface) : Except Exn Bool := do
  let subnet ← n.subnet
  let target ← Ipv4Subnet.parse address
  pure (subnet.containsHost target)

/-- The saved address of the device, else the resolved one, unless it is null or empty. -/
def knownAddress (device : Device) (resolvedAddress : Option Str) : Option Str :=
  (if device.ipv4Address.length > 0 then some device.ipv4Address else resolvedAddress).filter fun a => a.length > 0

/-- The saved interface, if one is set. -/
def ofInterface (interfaceId : Str) (candidates : List LocalNetworkInterface) : Except Exn (List LocalNetworkInterface) :=
  if interfaceId.length > 0 then do
    let candidates := candidates.filter fun n => n.id = interfaceId
    throwIf (candidates.length = 0)
      (.argument "The configured wake interface is unavailable or has no broadcast subnet. Edit the device and select an active interface.")
    pure candidates
  else pure candidates

/-- The configured broadcast, unless it is the limited one. -/
def ofBroadcast (broadcast : Str) (candidates : List LocalNetworkInterface) : Except Exn (List LocalNetworkInterface) :=
  if broadcast.length > 0 ∧ broadcast ≠ limitedBroadcast then whereM (broadcastsTo broadcast) candidates
  else pure candidates

/-- Of several candidates, those whose subnet has the address, if there are any. -/
def preferLocal (address : Option Str) (candidates : List LocalNetworkInterface) :
    Except Exn (List LocalNetworkInterface) :=
  match address with
  | some address =>
    if candidates.length > 1 then do
      let found ← whereM (containsHost address) candidates
      pure (if found.length > 0 then found else candidates)
    else pure candidates
  | none => pure candidates

/-- With nothing configured, the candidates whose subnet has the address. -/
def requireLocal (device : Device) (address : Option Str) (candidates : List LocalNetworkInterface) :
    Except Exn (List LocalNetworkInterface) :=
  match address with
  | some address =>
    if device.wake.interfaceId.length = 0 ∧ device.wake.broadcastAddress.length = 0 then
      whereM (containsHost address) candidates
    else pure candidates
  | none => pure candidates

def only : List LocalNetworkInterface → Except Exn LocalNetworkInterface
  | [] => throw (.argument "No active local interface matches the target subnet or broadcast. Check the IP, interface and broadcast settings.")
  | [n] => pure n
  | _ => throw (.argument "More than one interface could send this wake packet. Select a preferred interface in the device editor.")

/-- Where the packet is sent from the interface that was chosen. -/
def destination (device : Device) (chosen : LocalNetworkInterface) : Except Exn WakeDestination := do
  if device.wake.broadcastAddress.length = 0 then do
    let subnet ← chosen.subnet
    pure ⟨chosen, Ipv4Subnet.format subnet.broadcast, device.wake.port⟩
  else pure ⟨chosen, device.wake.broadcastAddress, device.wake.port⟩

def select (device : Device) (interfaces : List LocalNetworkInterface) (resolvedAddress : Option Str) :
    Except Exn WakeDestination := do
  throwIf (device.wake.capability = .disabled) (.argument "Enable Wake-on-LAN in the device editor first.")
  let candidates ← whereM hasBroadcast interfaces
  let candidates ← ofInterface device.wake.interfaceId candidates
  let address := knownAddress device resolvedAddress
  let candidates ← ofBroadcast device.wake.broadcastAddress candidates
  let candidates ← preferLocal address candidates
  let candidates ← requireLocal device address candidates
  let chosen ← only candidates
  destination device chosen

/-! ## What is chosen -/

/-- The entry passes the filters of what was configured. -/
def configured (device : Device) (n : LocalNetworkInterface) : Bool :=
  held (hasBroadcast n) && (device.wake.interfaceId.length = 0 || n.id = device.wake.interfaceId) &&
    (device.wake.broadcastAddress.length = 0 || device.wake.broadcastAddress = limitedBroadcast ||
      held (broadcastsTo device.wake.broadcastAddress n))

/-- The entries that have the address, if one of them has. -/
def narrowed (address : Option Str) (candidates : List LocalNetworkInterface) : List LocalNetworkInterface :=
  match address with
  | some address =>
    if candidates.any fun n => held (containsHost address n) then candidates.filter fun n => held (containsHost address n)
    else candidates
  | none => candidates

/-- The entries that pass the filters: those that are configured and, if one of them has the
    address, have it. -/
def entries (device : Device) (interfaces : List LocalNetworkInterface) (resolvedAddress : Option Str) :
    List LocalNetworkInterface :=
  narrowed (knownAddress device resolvedAddress) (interfaces.filter (configured device))

variable {device : Device} {interfaces candidates found : List LocalNetworkInterface} {resolvedAddress : Option Str}

theorem ofInterface_ok {interfaceId : Str} (h : ofInterface interfaceId candidates = .ok found) :
    found = candidates.filter fun n => interfaceId.length = 0 || n.id = interfaceId := by
  unfold ofInterface at h
  by_cases hid : interfaceId.length > 0
  · rw [if_pos hid] at h
    obtain ⟨-, h⟩ := throwIf_bind_ok_iff.mp h
    cases h
    have hne : ¬ interfaceId.length = 0 := by omega
    simp [hne]
  · rw [if_neg hid] at h
    cases h
    have heq : interfaceId.length = 0 := by omega
    simp [heq]

theorem ofBroadcast_ok {broadcast : Str} (h : ofBroadcast broadcast candidates = .ok found) :
    found = candidates.filter fun n =>
      broadcast.length = 0 || broadcast = limitedBroadcast || held (broadcastsTo broadcast n) := by
  unfold ofBroadcast at h
  by_cases hb : broadcast.length > 0 ∧ broadcast ≠ limitedBroadcast
  · rw [if_pos hb] at h
    have hne : ¬ broadcast.length = 0 := by omega
    rw [whereM_ok h]
    simp [hne, hb.2]
  · rw [if_neg hb] at h
    cases h
    by_cases h0 : broadcast.length = 0
    · simp [h0]
    · have hlimited : broadcast = limitedBroadcast := by
        by_contra hne
        exact hb ⟨by omega, hne⟩
      simp [hlimited]

theorem preferLocal_ok {address : Str} (h : preferLocal (some address) candidates = .ok found) :
    found = if 1 < candidates.length ∧ candidates.any (fun n => held (containsHost address n)) then
      candidates.filter fun n => held (containsHost address n) else candidates := by
  unfold preferLocal at h
  dsimp only at h
  by_cases hlength : candidates.length > 1
  · rw [if_pos hlength] at h
    obtain ⟨subset, hsubset, h⟩ := bind_ok_iff.mp h
    cases h
    rw [whereM_ok hsubset]
    by_cases hany : candidates.any (fun n => held (containsHost address n)) = true
    · obtain ⟨n, hn, hheld⟩ := List.any_eq_true.mp hany
      have hpos : (candidates.filter fun n => held (containsHost address n)).length > 0 :=
        List.length_pos_of_mem (List.mem_filter.mpr ⟨hn, hheld⟩)
      rw [if_pos hpos, if_pos ⟨hlength, hany⟩]
    · have hnone : candidates.filter (fun n => held (containsHost address n)) = [] :=
        List.filter_eq_nil_iff.mpr fun n hn hheld => hany (List.any_eq_true.mpr ⟨n, hn, hheld⟩)
      rw [hnone, if_neg (by simp), if_neg (fun h => hany h.2)]
  · rw [if_neg hlength] at h
    cases h
    rw [if_neg (fun h => hlength h.1)]

theorem requireLocal_ok {address : Str} (h : requireLocal device (some address) candidates = .ok found) :
    found = if device.wake.interfaceId.length = 0 ∧ device.wake.broadcastAddress.length = 0 then
      candidates.filter fun n => held (containsHost address n) else candidates := by
  unfold requireLocal at h
  dsimp only at h
  split at h
  · rw [if_pos ‹_›]
    exact whereM_ok h
  · rw [if_neg ‹_›]
    cases h
    rfl

/-- The one that is left is the only one of the narrowed entries; with nothing configured it has the
    address. -/
theorem only_entry {n : LocalNetworkInterface} {address : Option Str} (hprefer : preferLocal address candidates = .ok found)
    (hrequire : requireLocal device address found = .ok [n]) : narrowed address candidates = [n] ∧
      (device.wake.interfaceId.length = 0 → device.wake.broadcastAddress.length = 0 →
        ∀ a ∈ address, held (containsHost a n) = true) := by
  cases address with
  | none =>
    cases hprefer
    cases hrequire
    exact ⟨rfl, nofun⟩
  | some a =>
    have hfound := preferLocal_ok hprefer
    have hlast := requireLocal_ok hrequire
    have hlocal (h : found.filter (fun n => held (containsHost a n)) = [n]) : held (containsHost a n) = true := by
      have hn : n ∈ found.filter (fun n => held (containsHost a n)) := by
        rw [h]
        exact List.mem_singleton_self n
      exact (List.mem_filter.mp hn).2
    refine ⟨?_, ?_⟩
    · unfold narrowed
      dsimp only
      by_cases hany : candidates.any (fun n => held (containsHost a n)) = true
      · rw [if_pos hany]
        by_cases hlength : 1 < candidates.length
        · rw [if_pos ⟨hlength, hany⟩] at hfound
          split at hlast
          · rw [hfound, List.filter_filter, List.filter_congr (fun _ _ => Bool.and_self _)] at hlast
            exact hlast.symm
          · rw [← hfound]
            exact hlast.symm
        · rw [if_neg (fun h => hlength h.1)] at hfound
          split at hlast
          · rw [hfound] at hlast
            exact hlast.symm
          · rw [← hlast] at hfound
            rw [← hfound] at hany ⊢
            simpa using hany
      · rw [if_neg hany]
        rw [if_neg (fun h => hany h.2)] at hfound
        split at hlast
        · have hheld := hlocal hlast.symm
          refine absurd (List.any_eq_true.mpr ⟨n, ?_, hheld⟩) hany
          have hn : n ∈ found.filter (fun n => held (containsHost a n)) := by
            rw [← hlast]
            exact List.mem_singleton_self n
          rw [← hfound]
          exact List.mem_of_mem_filter hn
        · rw [← hfound, ← hlast]
    · intro hid hb a' ha'
      cases ha'
      rw [if_pos ⟨hid, hb⟩] at hlast
      exact hlocal hlast.symm

/-- What `select` chose, and where it sends. -/
structure Routes (device : Device) (interfaces : List LocalNetworkInterface) (resolvedAddress : Option Str)
    (chosen : WakeDestination) (subnet : Ipv4Subnet) : Prop where
  listed : chosen.interface ∈ interfaces
  located : chosen.interface.subnet = .ok subnet
  broadcasts : subnet.prefixLength < 31
  saved : device.wake.interfaceId ≠ [] → chosen.interface.id = device.wake.interfaceId
  limited : chosen.broadcastAddress = limitedBroadcast →
    device.wake.broadcastAddress = limitedBroadcast ∨ Ipv4Subnet.format subnet.broadcast = limitedBroadcast
  directed : chosen.broadcastAddress ≠ limitedBroadcast → chosen.broadcastAddress = Ipv4Subnet.format subnet.broadcast
  near : device.wake.interfaceId = [] → device.wake.broadcastAddress = [] →
    ∀ address ∈ knownAddress device resolvedAddress,
      ∃ target, Ipv4Subnet.parse address = .ok target ∧ subnet.containsHost target = true
  port : chosen.port = device.wake.port
  /-- No other entry passes the filters it passed. -/
  only : entries device interfaces resolvedAddress = [chosen.interface]

theorem narrowed_subset {address : Option Str} {n : LocalNetworkInterface} (h : n ∈ narrowed address candidates) :
    n ∈ candidates := by
  unfold narrowed at h
  split at h
  · split at h
    · exact List.mem_of_mem_filter h
    · exact h
  · exact h

/-- The destination of an entry that is configured. -/
theorem destination_routes {n : LocalNetworkInterface} {chosen : WakeDestination} (hn : configured device n = true)
    (h : destination device n = .ok chosen) : chosen.interface = n ∧ chosen.port = device.wake.port ∧
      ∃ subnet, n.subnet = .ok subnet ∧ subnet.prefixLength < 31 ∧
        (chosen.broadcastAddress = Ipv4Subnet.format subnet.broadcast ∨
          chosen.broadcastAddress = limitedBroadcast ∧ device.wake.broadcastAddress = limitedBroadcast) := by
  simp only [configured, Bool.and_eq_true, Bool.or_eq_true, decide_eq_true_eq] at hn
  obtain ⟨⟨husable, -⟩, hbroadcast⟩ := hn
  obtain ⟨subnet, hsubnet, hfront⟩ := held_bind.mp husable
  have hfront : subnet.prefixLength < 31 := of_decide_eq_true hfront
  unfold destination at h
  split at h
  · rw [hsubnet] at h
    cases h
    exact ⟨rfl, rfl, subnet, hsubnet, hfront, Or.inl rfl⟩
  · rename_i hne
    cases h
    refine ⟨rfl, rfl, subnet, hsubnet, hfront, ?_⟩
    rcases hbroadcast with (h0 | hlimited) | hdirected
    · exact absurd h0 hne
    · exact Or.inr ⟨hlimited, hlimited⟩
    · obtain ⟨subnet', hsubnet', hdirected⟩ := held_bind.mp hdirected
      cases hsubnet.symm.trans hsubnet'
      exact Or.inl (of_decide_eq_true hdirected).symm

theorem select_ok {chosen : WakeDestination} (h : select device interfaces resolvedAddress = .ok chosen) :
    ∃ subnet, Routes device interfaces resolvedAddress chosen subnet := by
  unfold select at h
  obtain ⟨-, h⟩ := throwIf_bind_ok_iff.mp h
  obtain ⟨usable, husable, h⟩ := bind_ok_iff.mp h
  obtain ⟨named, hnamed, h⟩ := bind_ok_iff.mp h
  obtain ⟨directed, hdirected, h⟩ := bind_ok_iff.mp h
  obtain ⟨preferred, hpreferred, h⟩ := bind_ok_iff.mp h
  obtain ⟨last, hlast, h⟩ := bind_ok_iff.mp h
  obtain ⟨n, honly, h⟩ := bind_ok_iff.mp h
  have hpassing : directed = interfaces.filter (configured device) := by
    rw [ofBroadcast_ok hdirected, ofInterface_ok hnamed, whereM_ok husable, List.filter_filter, List.filter_filter]
    refine List.filter_congr ?_
    intro n _
    unfold configured
    ac_rfl
  have hlast' : last = [n] := by
    unfold only at honly
    split at honly
    · cases honly
    · cases honly
      rfl
    · cases honly
  subst hlast'
  obtain ⟨hentries, hnear⟩ := only_entry hpreferred hlast
  rw [hpassing] at hentries
  have hn : n ∈ interfaces.filter (configured device) := by
    refine @narrowed_subset _ (knownAddress device resolvedAddress) n ?_
    rw [hentries]
    exact List.mem_singleton_self n
  obtain ⟨hlisted, hconfigured⟩ := List.mem_filter.mp hn
  obtain ⟨hinterface, hport, subnet, hsubnet, hfront, hsent⟩ := destination_routes hconfigured h
  refine ⟨subnet, ?_⟩
  exact
    { listed := by rwa [hinterface]
      located := by rwa [hinterface]
      broadcasts := hfront
      saved := by
        intro hid
        simp only [configured, Bool.and_eq_true, Bool.or_eq_true, decide_eq_true_eq] at hconfigured
        rw [hinterface]
        exact hconfigured.1.2.resolve_left fun h0 => hid (List.eq_nil_of_length_eq_zero h0)
      limited := by
        intro hlimited
        rcases hsent with hsent | hsent
        · exact Or.inr (hsent.symm.trans hlimited)
        · exact Or.inl hsent.2
      directed := fun hne => hsent.resolve_right fun hsent => hne hsent.1
      near := by
        intro hid hb address haddress
        have hheld := hnear (by rw [hid]; rfl) (by rw [hb]; rfl) address haddress
        obtain ⟨subnet', hsubnet', hheld⟩ := held_bind.mp hheld
        obtain ⟨target, htarget, hheld⟩ := held_bind.mp hheld
        cases hsubnet.symm.trans hsubnet'
        exact ⟨target, htarget, hheld⟩
      port := hport
      only := by
        rw [hinterface]
        exact hentries }

/-! ## The order of the list -/

/-- The mask of the interface is contiguous, and its address and mask are addresses. -/
def HasSubnet (n : LocalNetworkInterface) : Prop := ∃ subnet, n.subnet = .ok subnet

theorem ofInterface_perm {interfaceId : Str} (hperm : candidates.Perm found) (hsubnets : ∀ n ∈ candidates, HasSubnet n) :
    SameUpToOrder HasSubnet (ofInterface interfaceId candidates) (ofInterface interfaceId found) := by
  unfold ofInterface
  split
  · have hfilter := hperm.filter fun n => decide (n.id = interfaceId)
    dsimp only
    rw [← hfilter.length_eq]
    by_cases hnone : (candidates.filter fun n => decide (n.id = interfaceId)).length = 0
    · simp only [throwIf, if_pos hnone]
      exact .error _
    · simp only [throwIf, if_neg hnone]
      exact .pure hfilter fun n hn => hsubnets n (List.mem_of_mem_filter hn)
  · exact .pure hperm hsubnets

theorem broadcastsTo_perm {broadcast : Str} (hperm : candidates.Perm found) (hsubnets : ∀ n ∈ candidates, HasSubnet n) :
    SameUpToOrder HasSubnet (whereM (broadcastsTo broadcast) candidates) (whereM (broadcastsTo broadcast) found) := by
  refine whereM_perm (e := .operationCanceled) hperm hsubnets ?_
  intro n hn e he
  obtain ⟨subnet, hsubnet⟩ := hsubnets n hn
  simp [broadcastsTo, hsubnet] at he

theorem containsHost_perm {address : Str} (hperm : candidates.Perm found) (hsubnets : ∀ n ∈ candidates, HasSubnet n) :
    SameUpToOrder HasSubnet (whereM (containsHost address) candidates) (whereM (containsHost address) found) := by
  cases hparse : Ipv4Subnet.parse address with
  | error e =>
    refine whereM_perm (e := e) hperm hsubnets ?_
    intro n hn e' he
    obtain ⟨subnet, hsubnet⟩ := hsubnets n hn
    rw [containsHost, hsubnet, ok_bind, hparse] at he
    cases he
    rfl
  | ok target =>
    refine whereM_perm (e := .operationCanceled) hperm hsubnets ?_
    intro n hn e he
    obtain ⟨subnet, hsubnet⟩ := hsubnets n hn
    simp [containsHost, hsubnet, hparse] at he

theorem preferLocal_perm {address : Option Str} (hperm : candidates.Perm found) (hsubnets : ∀ n ∈ candidates, HasSubnet n) :
    SameUpToOrder HasSubnet (preferLocal address candidates) (preferLocal address found) := by
  unfold preferLocal
  cases address with
  | none => exact .pure hperm hsubnets
  | some address =>
    dsimp only
    rw [hperm.length_eq]
    split
    · refine (containsHost_perm hperm hsubnets).bind ?_
      intro xs ys hxs hx
      rw [hxs.length_eq]
      split
      · exact .pure hxs hx
      · exact .pure hperm hsubnets
    · exact .pure hperm hsubnets

theorem requireLocal_perm {address : Option Str} (hperm : candidates.Perm found) (hsubnets : ∀ n ∈ candidates, HasSubnet n) :
    SameUpToOrder HasSubnet (requireLocal device address candidates) (requireLocal device address found) := by
  unfold requireLocal
  cases address with
  | none => exact .pure hperm hsubnets
  | some address =>
    dsimp only
    split
    · exact containsHost_perm hperm hsubnets
    · exact .pure hperm hsubnets

theorem only_perm (hperm : candidates.Perm found) : only candidates = only found := by
  match candidates, found, hperm with
  | [], [], _ => rfl
  | [n], [m], hperm => rw [List.perm_singleton.mp hperm.symm]
  | _ :: _ :: _, _ :: _ :: _, _ => rfl
  | [], _ :: _, hperm => simp at hperm
  | [_], [], hperm => simp at hperm
  | [_], _ :: _ :: _, hperm => have := hperm.length_eq; simp at this
  | _ :: _ :: _, [], hperm => simp at hperm
  | _ :: _ :: _, [_], hperm => have := hperm.length_eq; simp at this

theorem select_perm (hperm : interfaces.Perm found) (hsubnets : ∀ n ∈ interfaces, HasSubnet n) :
    select device interfaces resolvedAddress = select device found resolvedAddress := by
  unfold select
  refine bind_congr fun _ => ?_
  have husable : SameUpToOrder HasSubnet (whereM hasBroadcast interfaces) (whereM hasBroadcast found) := by
    refine whereM_perm (e := .operationCanceled) hperm hsubnets ?_
    intro n hn e he
    obtain ⟨subnet, hsubnet⟩ := hsubnets n hn
    simp [hasBroadcast, hsubnet] at he
  refine husable.bind_eq fun _ _ hperm hsubnets => ?_
  refine (ofInterface_perm hperm hsubnets).bind_eq fun _ _ hperm hsubnets => ?_
  have hdirected {xs ys : List LocalNetworkInterface} (hperm : xs.Perm ys) (hsubnets : ∀ n ∈ xs, HasSubnet n) :
      SameUpToOrder HasSubnet (ofBroadcast device.wake.broadcastAddress xs) (ofBroadcast device.wake.broadcastAddress ys) := by
    unfold ofBroadcast
    split
    · exact broadcastsTo_perm hperm hsubnets
    · exact .pure hperm hsubnets
  refine (hdirected hperm hsubnets).bind_eq fun _ _ hperm hsubnets => ?_
  refine (preferLocal_perm hperm hsubnets).bind_eq fun _ _ hperm hsubnets => ?_
  refine (requireLocal_perm hperm hsubnets).bind_eq fun _ _ hperm _ => ?_
  rw [only_perm hperm]

/-- The choice does not depend on the order of the interfaces, and where there is one it is the only
    entry that passes the filters. -/
theorem select_unambiguous (device : Device) (interfaces : List LocalNetworkInterface) (resolvedAddress : Option Str)
    (hmasks : ∀ n ∈ interfaces, HasSubnet n) :
    (∀ found, interfaces.Perm found → select device found resolvedAddress = select device interfaces resolvedAddress) ∧
      ∀ chosen, select device interfaces resolvedAddress = .ok chosen →
        ∃ subnet, Routes device interfaces resolvedAddress chosen subnet :=
  ⟨fun _ hperm => (select_perm hperm hmasks).symm, fun _ => select_ok⟩

def lan : LocalNetworkInterface := ⟨str "lan", 1, str "10.20.0.2", str "255.255.0.0", []⟩

def wifi : LocalNetworkInterface := ⟨str "wifi", 2, str "192.168.5.1", str "255.255.255.0", []⟩

def target : Device :=
  { id := 1, displayName := str "PC", ipv4Address := str "10.20.30.40", wake := { capability := .enabledUnverified } }

theorem target_reached_by_lan : select target [wifi, lan] none = select target [lan, wifi] none ∧
    select target [lan, wifi] none = .ok ⟨lan, str "10.20.255.255", 9⟩ := by
  have hmasks : ∀ n ∈ [lan, wifi], HasSubnet n := by
    simp only [List.forall_mem_cons, List.not_mem_nil, false_implies, implies_true, and_true]
    exact ⟨⟨⟨169082880, 169148415, 16⟩, by decide +kernel⟩, ⟨⟨3232236800, 3232237055, 24⟩, by decide +kernel⟩⟩
  exact ⟨(select_unambiguous target [lan, wifi] none hmasks).1 _ (List.Perm.swap wifi lan []), by decide +kernel⟩

end WakeRouting

end MythLab.WakeOnLan
