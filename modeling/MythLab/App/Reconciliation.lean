/-
  MythLab.App.Reconciliation — what a synchronization makes of every card and every wake.

  The three loops of `synchronize` one after the other: cards that no device has are taken
  off once each (`synchronize_gone`); each device finds its card or gets one, and with distinct
  ids no other device touches that card (`placed_card`, `placed_new`); the moves put the
  page in the sorted order (`sortPage_page`). Beside the cards, a loop cancels the wakes
  registered for the cards it invalidates, and no other wake (`Cancels`).

  Together, from every state whose cards have distinct ids: `synchronize_reconciles`. The
  generation that is counted up is an `int`: the one after the largest is the smallest
  (`generation_wraps`).
-/
import Mathlib.Data.List.Lex
import MythLab.Lib.Placing
import MythLab.App.WakeRegistry

namespace MythLab.App.DeviceActivityViewModel

open Lib Dotnet Devices

variable {s t u : State} {devices : List Device}

/-! ## Cancelled wakes -/

def Wake.cancel (w : Wake) : Wake := { w with cancelled := true }

/-- From `s` to `t` the wakes with `p` are cancelled, the others are as they were. -/
structure Cancels (s t : State) (p : Nat → Prop) : Prop where
  cancelled : ∀ w, p w → t.wakes[w]? = s.wakes[w]?.map Wake.cancel
  others : ∀ w, ¬ p w → t.wakes[w]? = s.wakes[w]?

theorem Cancels.none (h : t.wakes = s.wakes) {p : Nat → Prop} (hp : ∀ w, ¬ p w) : Cancels s t p where
  cancelled w hw := absurd hw (hp w)
  others w _ := by rw [h]

theorem Cancels.trans {p q r : Nat → Prop} (h : Cancels s t p) (h' : Cancels t u q) (hr : ∀ w, r w ↔ p w ∨ q w) :
    Cancels s u r where
  cancelled w hw := by
    by_cases hq : q w
    · rw [h'.cancelled w hq]
      by_cases hp : p w
      · rw [h.cancelled w hp, Option.map_map]
        rfl
      · rw [h.others w hp]
    · rw [h'.others w hq, h.cancelled w (((hr w).mp hw).resolve_right hq)]
  others w hw := by
    rw [h'.others w fun hq => hw ((hr w).mpr (Or.inr hq)), h.others w fun hp => hw ((hr w).mpr (Or.inl hp))]

theorem Cancels.congr {p q : Nat → Prop} (h : Cancels s t p) (hq : ∀ w, q w ↔ p w) : Cancels s t q where
  cancelled w hw := h.cancelled w ((hq w).mp hw)
  others w hw := h.others w fun hp => hw ((hq w).mpr hp)

/-- The wake `w` is registered for the card `x`. -/
def RegisteredFor (s : State) (x w : Nat) : Prop := s.registry.lookup (s.card x).id = some w

theorem cancelWake_cancels (s : State) (x : Nat) (hwakes : t.wakes = (cancelWake s x).wakes) :
    Cancels s t (RegisteredFor s x) := by
  unfold cancelWake at hwakes
  unfold RegisteredFor
  cases hlookup : s.registry.lookup (s.card x).id with
  | none =>
    rw [hlookup] at hwakes
    exact .none hwakes fun w hw => (by cases hw)
  | some v =>
    rw [hlookup] at hwakes
    have hget (w : Nat) : t.wakes[w]? = if v = w then s.wakes[w]?.map Wake.cancel else s.wakes[w]? := by
      rw [hwakes, List.getElem?_modify]
      split
      · rfl
      · cases s.wakes[w]? <;> rfl
    refine ⟨?_, ?_⟩
    · intro w hw
      rw [hget, if_pos (Option.some.inj hw)]
    · intro w hw
      rw [hget, if_neg fun he => hw (congrArg some he)]

/-! ## Cards taken off -/

theorem removeCard_cancels (s : State) (x : Nat) : Cancels s (removeCard s x) (RegisteredFor s x) :=
  cancelWake_cancels s x rfl

theorem removeCard_registry (s : State) (x : Nat) : (removeCard s x).registry = s.registry := by
  obtain ⟨wakes, heq, -⟩ := removeCard_eq s x
  rw [heq]
  rfl

theorem removeCard_id (s : State) (x y : Nat) : ((removeCard s x).card y).id = (s.card y).id := by
  rw [removeCard_card]
  split
  · subst y
    rfl
  · rfl

theorem removed_cancels (cards : List Nat) (s : State) :
    Cancels s (cards.foldl removeCard s) (fun w => ∃ x ∈ cards, RegisteredFor s x w) := by
  induction cards generalizing s with
  | nil => exact .none rfl fun w hw => (by obtain ⟨x, hx, -⟩ := hw; cases hx)
  | cons x cards ih =>
    refine (removeCard_cancels s x).trans (ih _) ?_
    intro w
    unfold RegisteredFor
    simp only [removeCard_registry, removeCard_id, List.exists_mem_cons_iff]

/-! ## Devices placed -/

/-- What the card of a device becomes. -/
def Card.placed (c : Card) (device : Device) : Card :=
  if retargets c device then c.retargeted device else { c with device := device }

theorem Card.placed_device (c : Card) (device : Device) : (c.placed device).device = device := by
  unfold Card.placed
  split <;> rfl

theorem placeDevice_registry (s : State) (device : Device) : (placeDevice s device).registry = s.registry := by
  unfold placeDevice
  split
  · rfl
  · split
    · obtain ⟨wakes, heq, -⟩ := retarget_eq s _ device
      rw [heq]
      rfl
    · rfl

/-- The cards a device placed leaves on the page: those there were, and one of its own. -/
theorem placeDevice_new {device : Device} {x : Nat} (hx : x ∈ (placeDevice s device).page) :
    x ∈ s.page ∨ (placeDevice s device).card x = { device := device } := by
  unfold placeDevice at hx ⊢
  split at hx
  · rcases List.mem_append.mp hx with hx | hx
    · exact Or.inl hx
    · rw [List.mem_singleton.mp hx]
      exact Or.inr (added_new s device)
  · rename_i y hfind
    split at hx
    · obtain ⟨wakes, heq, -⟩ := retarget_eq s y device
      rw [heq] at hx
      exact Or.inl hx
    · exact Or.inl hx

theorem placeDevice_mem (s : State) (device : Device) : ∃ x ∈ (placeDevice s device).page,
    ((placeDevice s device).card x).id = device.id := by
  unfold placeDevice
  split
  · refine ⟨s.made, List.mem_append_right _ (List.mem_singleton.mpr rfl), ?_⟩
    show ((added s device).card s.made).id = _
    rw [added_new]
    rfl
  · rename_i x hfind
    obtain ⟨hx, -⟩ := find_card hfind
    split
    · obtain ⟨wakes, heq, -⟩ := retarget_eq s x device
      rw [heq]
      refine ⟨x, hx, ?_⟩
      show (Function.update s.card x _ x).id = _
      rw [Function.update_self]
      rfl
    · refine ⟨x, hx, ?_⟩
      unfold update
      rw [setCard_self]
      rfl

theorem placeDevice_cancels (s : State) (device : Device) (h : Tidy s) : Cancels s (placeDevice s device)
    (fun w => ∃ x ∈ s.page, device.id = (s.card x).id ∧ retargets (s.card x) device = true ∧ RegisteredFor s x w) := by
  unfold placeDevice
  split
  case h_1 hnone =>
    refine Cancels.none (s := s) (t := added s device) rfl ?_
    rintro w ⟨x, hx, hid, -⟩
    exact List.find?_eq_none.mp hnone x hx (decide_eq_true hid.symm)
  case h_2 x hfind =>
    obtain ⟨hx, hid⟩ := find_card hfind
    have honly {y : Nat} (hy : y ∈ s.page) (hyid : device.id = (s.card y).id) : y = x :=
      h.eq_of_id hy hx (hyid.symm.trans hid)
    split
    · rename_i hr
      refine (cancelWake_cancels (t := update (retarget s x) x device) s x rfl).congr ?_
      intro w
      refine ⟨?_, fun hw => ⟨x, hx, hid, hr, hw⟩⟩
      rintro ⟨y, hy, hyid, -, hw⟩
      rwa [honly hy hyid] at hw
    · rename_i hr
      refine Cancels.none (s := s) (t := update s x device) rfl ?_
      rintro w ⟨y, hy, hyid, hyr, -⟩
      rw [honly hy hyid] at hyr
      exact hr hyr

theorem placeDevice_other (h : Tidy s) {device : Device} {x : Nat} (hx : x ∈ s.page) (hid : device.id ≠ (s.card x).id) :
    (placeDevice s device).card x = s.card x := by
  rw [placeDevice_card h device hx, if_neg hid]

section Placed

theorem placed_other (h : Tidy s) {x : Nat} (hx : x ∈ s.page) (hid : ∀ d ∈ devices, d.id ≠ (s.card x).id) :
    (devices.foldl placeDevice s).card x = s.card x := by
  induction devices generalizing s with
  | nil => rfl
  | cons d devices ih =>
    rw [List.forall_mem_cons] at hid
    have hsame := placeDevice_other h hx hid.1
    rw [List.foldl_cons, ih (placeDevice_evolves h d).2 (placeDevice_page s d hx) (by rw [hsame]; exact hid.2), hsame]

theorem ne_of_nodup_ids {d : Device} (hnodup : ((d :: devices).map Device.id).Nodup) : ∀ d' ∈ devices, d'.id ≠ d.id := by
  rw [List.map_cons, List.nodup_cons] at hnodup
  exact fun d' hd' he => hnodup.1 (he ▸ List.mem_map_of_mem hd')

/-- The device with the card's id writes on it, and no other. -/
theorem placed_card (h : Tidy s) (hnodup : (devices.map Device.id).Nodup) {x : Nat} (hx : x ∈ s.page) {device : Device}
    (hdevice : device ∈ devices) (hid : device.id = (s.card x).id) :
    (devices.foldl placeDevice s).card x = (s.card x).placed device := by
  induction devices generalizing s with
  | nil => cases hdevice
  | cons d devices ih =>
    have hothers := ne_of_nodup_ids hnodup
    have hcard := placeDevice_card h d hx
    have ht := (placeDevice_evolves h d).2
    have hx' := placeDevice_page s d hx
    rw [List.foldl_cons]
    by_cases he : device = d
    · subst he
      rw [if_pos hid] at hcard
      have hcard : (placeDevice s device).card x = (s.card x).placed device := hcard
      rw [placed_other ht hx' ?_, hcard]
      intro d' hd'
      rw [hcard]
      show d'.id ≠ ((s.card x).placed device).device.id
      rw [Card.placed_device]
      exact hothers d' hd'
    · have hin := (List.mem_cons.mp hdevice).resolve_left he
      rw [if_neg fun hd => hothers device hin (hid.trans hd.symm)] at hcard
      rw [ih ht (List.nodup_cons.mp hnodup).2 hx' hin (by rw [hcard]; exact hid), hcard]

theorem placed_new (h : Tidy s) (hnodup : (devices.map Device.id).Nodup) {x : Nat}
    (hx : x ∈ (devices.foldl placeDevice s).page) :
    x ∈ s.page ∨ ∃ device ∈ devices, (devices.foldl placeDevice s).card x = { device := device } := by
  induction devices generalizing s with
  | nil => exact Or.inl hx
  | cons d devices ih =>
    have ht := (placeDevice_evolves h d).2
    rw [List.foldl_cons] at hx ⊢
    rcases ih ht (List.nodup_cons.mp hnodup).2 hx with hin | ⟨device, hdevice, hcard⟩
    · refine (placeDevice_new hin).imp_right fun hcard => ⟨d, List.mem_cons_self, ?_⟩
      rw [placed_other ht hin ?_, hcard]
      rw [hcard]
      exact ne_of_nodup_ids hnodup
    · exact Or.inr ⟨device, List.mem_cons_of_mem d hdevice, hcard⟩

theorem mem_ids_placed (h : Tidy s) (id : Guid) :
    id ∈ ids (devices.foldl placeDevice s) ↔ id ∈ ids s ∨ id ∈ devices.map Device.id := by
  induction devices generalizing s with
  | nil => simp
  | cons d devices ih =>
    obtain ⟨hevolves, ht⟩ := placeDevice_evolves h d
    have hstep : id ∈ ids (placeDevice s d) ↔ id ∈ ids s ∨ id = d.id := by
      refine ⟨?_, ?_⟩
      · intro hin
        obtain ⟨x, hx, rfl⟩ := List.mem_map.mp hin
        rcases placeDevice_new hx with hx | hcard
        · rw [(hevolves.card x (h.made x hx)).id]
          exact Or.inl (List.mem_map_of_mem hx)
        · exact Or.inr (congrArg Card.id hcard)
      · rintro (hin | rfl)
        · obtain ⟨x, hx, rfl⟩ := List.mem_map.mp hin
          exact List.mem_map.mpr ⟨x, placeDevice_page s d hx, (hevolves.card x (h.made x hx)).id⟩
        · obtain ⟨x, hx, hid⟩ := placeDevice_mem s d
          exact List.mem_map.mpr ⟨x, hx, hid⟩
    rw [List.foldl_cons, ih ht, hstep, List.map_cons, List.mem_cons, or_assoc]

/-- The wakes registered for the cards that get another target are cancelled. -/
theorem placed_cancels (h : Tidy s) (hnodup : (devices.map Device.id).Nodup) :
    Cancels s (devices.foldl placeDevice s) (fun w => ∃ x ∈ s.page, ∃ device ∈ devices,
      device.id = (s.card x).id ∧ retargets (s.card x) device = true ∧ RegisteredFor s x w) := by
  induction devices generalizing s with
  | nil => exact .none rfl fun w hw => (by obtain ⟨x, -, d, hd, -⟩ := hw; cases hd)
  | cons d devices ih =>
    have ht := (placeDevice_evolves h d).2
    have hothers := ne_of_nodup_ids hnodup
    refine (placeDevice_cancels s d h).trans (ih ht (List.nodup_cons.mp hnodup).2) ?_
    intro w
    -- a device after the first finds the cards as they were
    have hlater (x : Nat) (device : Device) (hdevice : device ∈ devices) :
        (x ∈ (placeDevice s d).page ∧ device.id = ((placeDevice s d).card x).id ∧
          retargets ((placeDevice s d).card x) device = true ∧ RegisteredFor (placeDevice s d) x w) ↔
        (x ∈ s.page ∧ device.id = (s.card x).id ∧ retargets (s.card x) device = true ∧ RegisteredFor s x w) := by
      unfold RegisteredFor
      rw [placeDevice_registry]
      by_cases hx : x ∈ s.page
      · by_cases hd : d.id = (s.card x).id
        · have hid := ((placeDevice_evolves h d).1.card x (h.made x hx)).id
          refine ⟨?_, ?_⟩
          · rintro ⟨-, he, -⟩
            exact absurd (he.trans (hid.trans hd.symm)) (hothers device hdevice)
          · rintro ⟨-, he, -⟩
            exact absurd (he.trans hd.symm) (hothers device hdevice)
        · rw [placeDevice_other h hx hd]
          exact and_congr_left fun _ => ⟨fun _ => hx, fun _ => placeDevice_page s d hx⟩
      · refine ⟨?_, fun hin => absurd hin.1 hx⟩
        rintro ⟨hin, he, -⟩
        rw [(placeDevice_new hin).resolve_left hx] at he
        exact absurd he (hothers device hdevice)
    refine ⟨?_, ?_⟩
    · rintro ⟨x, hx, device, hdevice, hrest⟩
      rcases List.mem_cons.mp hdevice with rfl | hdevice
      · exact Or.inl ⟨x, hx, hrest⟩
      · obtain ⟨hx, hrest⟩ := (hlater x device hdevice).mpr ⟨hx, hrest⟩
        exact Or.inr ⟨x, hx, device, hdevice, hrest⟩
    · rintro (⟨x, hx, hrest⟩ | ⟨x, hx, device, hdevice, hrest⟩)
      · exact ⟨x, hx, d, List.mem_cons_self, hrest⟩
      · obtain ⟨hx, hrest⟩ := (hlater x device hdevice).mp ⟨hx, hrest⟩
        exact ⟨x, hx, device, List.mem_cons_of_mem d hdevice, hrest⟩

end Placed

/-! ## The order of the page -/

/-- The order of the cards by the names they show. -/
def byDisplayName (le : Str → Str → Bool) (s : State) (x y : Nat) : Prop :=
  le (s.card x).device.displayName (s.card y).device.displayName = true

instance (le : Str → Str → Bool) (s : State) : DecidableRel (byDisplayName le s) :=
  fun _ _ => inferInstanceAs (Decidable (_ = true))

theorem sortPage_page (le : Str → Str → Bool) (h : Tidy s) : (sortPage le s).page = sorted le s :=
  foldl_place_perm (sorted_perm le s).symm ((sorted_perm le s).nodup_iff.mpr h.nodup)

/-! ## The whole -/

/-- Counting up raises every generation but the largest. -/
theorem Card.lt_countUp {c : Card} (h : c.generation ≠ Int32.maxValue) : c.generation < c.countUp.generation := by
  have hlt := c.generation.toInt_lt
  have hle := c.generation.le_toInt
  have hmax : c.generation.toInt ≠ 2 ^ 31 - 1 := fun he => h (Int32.toInt_inj.mp he)
  rw [Card.countUp_generation, Int32.lt_iff_toInt_lt, Int32.toInt_add, show (1 : Int32).toInt = 1 from rfl,
    Int.bmod_eq_of_le (by omega) (by omega)]
  exact Int.lt_succ _

/-- What a synchronization from `s` to `t` does. -/
structure Reconciled (le : Str → Str → Bool) (s : State) (devices : List Device) (t : State) : Prop where
  /-- The cards are those of the devices, one each. -/
  ids : (ids t).Perm (devices.map Device.id) ∧ t.page.Nodup
  device : ∀ x ∈ t.page, (t.card x).device ∈ devices
  order : t.page.Pairwise (byDisplayName le t)
  /-- A card whose device is there stays, the same object with the device, or given another target. -/
  stays : ∀ x ∈ s.page, ∀ device ∈ devices, device.id = (s.card x).id → x ∈ t.page ∧ t.card x = (s.card x).placed device
  removed : ∀ x ∈ s.page, (∀ device ∈ devices, device.id ≠ (s.card x).id) →
    x ∉ t.page ∧ t.card x = (s.card x).countUp
  /-- The cards taken off and those given another target have the next generation, which wraps. -/
  counted : ∀ x, Invalidates s devices x → (t.card x).generation = (s.card x).generation + 1 ∧
    ((s.card x).generation ≠ Int32.maxValue → (s.card x).generation < (t.card x).generation)
  made : ∀ x ∈ t.page, x ∈ s.page ∨ ∃ device ∈ devices, t.card x = { device := device }
  /-- The wakes of the cards taken off and of those given another target are cancelled, and no others. -/
  wakes : Cancels s t (fun w => ∃ x, Invalidates s devices x ∧ RegisteredFor s x w)
  /-- Where the registry is that of a run, these are the cards' own. -/
  own : Registered s → ∀ w a, Running s w a → Invalidates s devices a.card → t.wakes[w]? = some a.cancel

section Whole

variable {le : Str → Str → Bool}

theorem gone_iff {x : Nat} : gone s devices x = true ↔ ∀ device ∈ devices, device.id ≠ (s.card x).id := by
  unfold gone
  rw [List.all_eq_true]
  exact forall₂_congr fun _ _ => decide_eq_true_iff

theorem kept_card (devices : List Device) {x : Nat} (hx : gone s devices x = false) :
    (kept s devices).card x = s.card x := by
  refine removed_other ?_ s
  intro hin
  rw [(List.mem_filter.mp hin).2] at hx
  cases hx

theorem kept_registry (devices : List Device) : (kept s devices).registry = s.registry := by
  have hall (cards : List Nat) (s : State) : (cards.foldl removeCard s).registry = s.registry := by
    induction cards generalizing s with
    | nil => rfl
    | cons x cards ih => exact (ih _).trans (removeCard_registry s x)
  exact hall _ s

/-- The ids of the placed cards are those of the devices. -/
theorem placed_ids (h : Tidy s) (hnodup : (devices.map Device.id).Nodup) :
    (DeviceActivityViewModel.ids (placed s devices)).Perm (devices.map Device.id) := by
  have htidy := (placed_evolves h devices).2
  refine (List.perm_ext_iff_of_nodup htidy.unique hnodup).mpr ?_
  intro id
  refine (mem_ids_placed (kept_evolves h devices).2 id).trans (or_iff_right_of_imp ?_)
  intro hin
  obtain ⟨x, hx, rfl⟩ := List.mem_map.mp hin
  obtain ⟨-, hstays⟩ := (mem_kept h devices x).mp hx
  have hdevice : ¬ ∀ device ∈ devices, device.id ≠ (s.card x).id := fun hno => by
    rw [gone_iff.mpr hno] at hstays
    cases hstays
  push Not at hdevice
  obtain ⟨device, hdevice, hid⟩ := hdevice
  rw [kept_card devices hstays, ← hid]
  exact List.mem_map_of_mem hdevice

theorem synchronized_wakes (h : Tidy s) (hnodup : (devices.map Device.id).Nodup) :
    Cancels s (synchronize le s devices) (fun w => ∃ x, Invalidates s devices x ∧ RegisteredFor s x w) := by
  have htk := (kept_evolves h devices).2
  have hremoved : Cancels s (kept s devices) _ := removed_cancels (s.page.filter (gone s devices)) s
  have hplaced : Cancels (kept s devices) (placed s devices) _ := placed_cancels htk hnodup
  -- sorting leaves the wakes alone
  have hsorted : Cancels (kept s devices) (synchronize le s devices) _ := ⟨hplaced.cancelled, hplaced.others⟩
  refine hremoved.trans hsorted ?_
  intro w
  have hafter (x : Nat) (hx : gone s devices x = false) : RegisteredFor (kept s devices) x w ↔ RegisteredFor s x w := by
    unfold RegisteredFor
    rw [kept_registry, kept_card devices hx]
  refine ⟨?_, ?_⟩
  · rintro ⟨x, ⟨hx, hinvalid⟩, hw⟩
    by_cases hgone : gone s devices x = true
    · exact Or.inl ⟨x, List.mem_filter.mpr ⟨hx, hgone⟩, hw⟩
    · obtain ⟨device, hdevice, hid, hr⟩ := hinvalid.resolve_left hgone
      have hstays := (Bool.not_eq_true _).mp hgone
      refine Or.inr ⟨x, (mem_kept h devices x).mpr ⟨hx, hstays⟩, device, hdevice, ?_, ?_, (hafter x hstays).mpr hw⟩
      · rwa [kept_card devices hstays]
      · rwa [kept_card devices hstays]
  · rintro (⟨x, hx, hw⟩ | ⟨x, hx, device, hdevice, hid, hr, hw⟩)
    · obtain ⟨hx, hgone⟩ := List.mem_filter.mp hx
      exact ⟨x, ⟨hx, Or.inl hgone⟩, hw⟩
    · obtain ⟨hx, hstays⟩ := (mem_kept h devices x).mp hx
      rw [kept_card devices hstays] at hid hr
      exact ⟨x, ⟨hx, Or.inr ⟨device, hdevice, hid, hr⟩⟩, (hafter x hstays).mp hw⟩

end Whole

/-- From every state whose cards have distinct ids, for every list of devices with distinct ids: the
    synchronized page has one card for each device, holding it, in the order of the display names. A
    card whose device is the same target is the same but for the device; any other card that stays
    is counted up and shows Unknown, and one taken off is counted up; exactly the wakes registered
    for the latter two are cancelled. -/
theorem synchronize_reconciles (le : Str → Str → Bool) (htotal : ∀ a b, le a b = true ∨ le b a = true)
    (htrans : ∀ a b c, le a b = true → le b c = true → le a c = true) (s : State) (h : Tidy s) (devices : List Device)
    (hnodup : (devices.map Device.id).Nodup) : Reconciled le s devices (synchronize le s devices) := by
  obtain ⟨hkept, htk⟩ := kept_evolves h devices
  obtain ⟨hplaced, htp⟩ := placed_evolves h devices
  have hperm : (synchronize le s devices).page.Perm (placed s devices).page := sortPage_perm le _
  have hstays : ∀ x ∈ s.page, ∀ device ∈ devices, device.id = (s.card x).id →
      x ∈ (synchronize le s devices).page ∧ (synchronize le s devices).card x = (s.card x).placed device := by
    intro x hx device hdevice hid
    have hgone : gone s devices x = false := (Bool.not_eq_true _).mp fun hgone => gone_iff.mp hgone device hdevice hid
    have hxk := (mem_kept h devices x).mpr ⟨hx, hgone⟩
    have hcard := placed_card htk hnodup hxk hdevice (by rw [kept_card devices hgone]; exact hid)
    rw [kept_card devices hgone] at hcard
    exact ⟨(synchronize_page le h devices (h.made x hx)).mpr ⟨hx, hgone⟩, hcard⟩
  have hmade : ∀ x ∈ (synchronize le s devices).page, x ∈ s.page ∨
      ∃ device ∈ devices, (synchronize le s devices).card x = { device := device } := by
    intro x hx
    refine (placed_new htk hnodup (hperm.mem_iff.mp hx)).imp_left ?_
    exact fun hxk => ((mem_kept h devices x).mp hxk).1
  have hwakes : Cancels s (synchronize le s devices) (fun w => ∃ x, Invalidates s devices x ∧ RegisteredFor s x w) :=
    synchronized_wakes h hnodup
  have hcounted : ∀ x, Invalidates s devices x →
      ((synchronize le s devices).card x).generation = (s.card x).countUp.generation := by
    rintro x ⟨hx, hgone | ⟨device, hdevice, hid, hr⟩⟩
    · rw [synchronize_gone le h hx hgone]
    · rw [(hstays x hx device hdevice hid).2, Card.placed, if_pos hr]
      rfl
  refine ⟨⟨?_, hperm.nodup_iff.mpr htp.nodup⟩, ?_, ?_, hstays, ?_, ?_, hmade, hwakes, ?_⟩
  · exact (hperm.map _).trans (placed_ids h hnodup)
  · intro x hx
    rcases hmade x hx with hold | ⟨device, hdevice, hcard⟩
    · obtain ⟨-, hgone⟩ := (synchronize_page le h devices (h.made x hold)).mp hx
      have hdevice : ¬ ∀ device ∈ devices, device.id ≠ (s.card x).id := fun hno => by
        rw [gone_iff.mpr hno] at hgone
        cases hgone
      push Not at hdevice
      obtain ⟨device, hdevice, hid⟩ := hdevice
      rw [(hstays x hold device hdevice hid).2, Card.placed_device]
      exact hdevice
    · rw [hcard]
      exact hdevice
  · show (sortPage le (placed s devices)).page.Pairwise (byDisplayName le (placed s devices))
    rw [sortPage_page le htp]
    have htotal : Std.Total (byDisplayName le (placed s devices)) := ⟨fun _ _ => htotal _ _⟩
    have htrans : IsTrans Nat (byDisplayName le (placed s devices)) := ⟨fun _ _ _ => htrans _ _ _⟩
    exact List.pairwise_insertionSort (byDisplayName le (placed s devices)) _
  · intro x hx hno
    have hgone := gone_iff.mpr hno
    refine ⟨?_, synchronize_gone le h hx hgone⟩
    intro hin
    rw [((synchronize_page le h devices (h.made x hx)).mp hin).2] at hgone
    cases hgone
  · intro x hx
    rw [hcounted x hx]
    exact ⟨Card.countUp_generation _, Card.lt_countUp⟩
  · intro hregistered w a hrunning hinvalid
    rw [hwakes.cancelled w ⟨a.card, hinvalid, hregistered.listed w a hrunning⟩, hrunning.1]
    rfl

theorem byName_total (a b : Str) : byName a b = true ∨ byName b a = true := by
  simp only [byName, binaryLe, Bool.not_eq_true', decide_eq_false_iff_not, not_lt]
  exact le_total _ _

theorem byName_trans (a b c : Str) (h : byName a b = true) (h' : byName b c = true) : byName a c = true := by
  simp only [byName, binaryLe, Bool.not_eq_true', decide_eq_false_iff_not, not_lt] at *
  exact h.trans h'

def desk : Device := { server with id := 2, displayName := str "Desk" }

def printer : Device := { server with id := 3, displayName := str "Printer" }

/-- The server is given another target and the printer is deleted while they are waking, and a
    device is added. -/
theorem waking_server_is_replaced : ∃ log s, (machine byName).Runs log s ∧
    Invalidates s [movedServer, desk, { server with id := 4 }] 0 ∧ (s.card 0).isWaking = true ∧
    Invalidates s [movedServer, desk, { server with id := 4 }] 2 ∧ (s.card 2).isWaking = true ∧
    Reconciled byName s [movedServer, desk, { server with id := 4 }]
      (synchronize byName s [movedServer, desk, { server with id := 4 }]) := by
  obtain ⟨log, s, hrun, -, hp⟩ := Machine.exists_run (machine byName) (fun _ _ => True)
    (fun s => (s.card 0).isWaking && (s.card 2).isWaking && decide (0 ∈ s.page) && decide (2 ∈ s.page) &&
      decide ((s.card 0).device = server) && decide ((s.card 2).device = printer))
    [.synchronize [server, desk, printer], .wake 0 false, .wake 2 false] rfl (by decide +kernel)
  simp only [Bool.and_eq_true, decide_eq_true_eq] at hp
  obtain ⟨⟨⟨⟨⟨hwaking, hwaking'⟩, hpage⟩, hpage'⟩, hserver⟩, hprinter⟩ := hp
  refine ⟨log, s, hrun, ⟨hpage, Or.inr ⟨movedServer, List.mem_cons_self, ?_, ?_⟩⟩, hwaking, ⟨hpage', Or.inl ?_⟩,
    hwaking', ?_⟩
  · rw [Card.id, hserver]
    rfl
  · rw [retargets, hserver]
    decide +kernel
  · rw [gone, Card.id, hprinter]
    decide +kernel
  · exact synchronize_reconciles byName byName_total byName_trans s (reach_inv ⟨log, hrun⟩).tidy _ (by decide)

/-- A card that has been given another target 2^31 - 1 times has the largest generation. -/
theorem generation_wraps :
    ¬ ∀ (le : Str → Str → Bool), (∀ a b, le a b = true ∨ le b a = true) →
      (∀ a b c, le a b = true → le b c = true → le a c = true) → ∀ (s : State), (machine le).Reach s →
      ∀ (devices : List Device), (devices.map Device.id).Nodup → ∀ x, Invalidates s devices x →
      (s.card x).generation < ((synchronize le s devices).card x).generation := by
  intro h
  obtain ⟨t, hl, ht⟩ := checked_turned.again (2 ^ 30 - 1)
  have hs := ht.next movedServer rfl (by decide +kernel)
  have hreach : (machine byName).Reach (synchronize byName t [movedServer]) :=
    Machine.reach_step (.synchronize [movedServer])
      ((Machine.reach_step .checkNow reach_listed rfl).leads hl) rfl
  have hnext := hs.next server rfl (by decide +kernel)
  have hinvalid : Invalidates (synchronize byName t [movedServer]) [server] 0 := by
    refine ⟨by rw [hs.page]; exact List.mem_singleton.mpr rfl, Or.inr ⟨server, List.mem_singleton.mpr rfl, ?_, ?_⟩⟩
    · rw [Card.id, hs.device]
      rfl
    · rw [retargets, hs.device]
      decide +kernel
  have hlt := h byName byName_total byName_trans _ hreach [server] (List.nodup_singleton _) 0 hinvalid
  rw [Card.generation, Card.generation, hs.raised, hnext.raised] at hlt
  exact absurd hlt (by decide +kernel)

end MythLab.App.DeviceActivityViewModel
