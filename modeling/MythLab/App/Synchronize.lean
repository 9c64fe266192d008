/-
  MythLab.App.Synchronize — what a synchronization does to the cards.

  The page stays tidy (`Tidy`): its cards have been made, and no two have one id.
  `Evolves` is what a synchronization may do and what several may do: a card keeps its id
  and whether it is waking, and while its generation is not counted up it keeps its state
  and detail; a card that stays on the page and is counted up shows Unknown; a card that
  is off the page is left alone, and does not come back.

  Proved: `synchronize_evolves`; the cards that stay are those some device has the id of
  (`synchronize_page`); the generation of a card taken off the page or given another target
  is counted up (`invalidated_raised`).
-/
import MythLab.App.DeviceActivityViewModel

namespace MythLab.App.DeviceActivityViewModel

open Lib Dotnet Devices

/-! ## The relation -/

structure CardEvolves (c d : Card) : Prop where
  id : d.id = c.id
  raised : c.raised ≤ d.raised
  isWaking : d.isWaking = c.isWaking
  same : d.raised = c.raised → d.state = c.state ∧ d.detail = c.detail
  state : d.state = c.state ∨ d.state = .unknown

theorem CardEvolves.refl (c : Card) : CardEvolves c c :=
  ⟨rfl, Nat.le_refl _, rfl, fun _ => ⟨rfl, rfl⟩, Or.inl rfl⟩

theorem CardEvolves.trans {c d e : Card} (h : CardEvolves c d) (h' : CardEvolves d e) : CardEvolves c e where
  id := h'.id.trans h.id
  raised := Nat.le_trans h.raised h'.raised
  isWaking := h'.isWaking.trans h.isWaking
  same hg := by
    have hle := h.raised
    have hle' := h'.raised
    obtain ⟨hs, hd⟩ := h.same (by omega)
    obtain ⟨hs', hd'⟩ := h'.same (by omega)
    exact ⟨hs'.trans hs, hd'.trans hd⟩
  state := by
    rcases h'.state with hs' | hs'
    · rw [hs']
      exact h.state
    · exact Or.inr hs'

/-- A wake but for its cancellation. -/
def Wake.uncancelled (w : Wake) : Wake := { w with cancelled := false }

structure Evolves (s t : State) : Prop where
  checks : t.checks = s.checks
  sweeps : t.sweeps = s.sweeps
  registry : t.registry = s.registry
  flags : t.checking = s.checking ∧ t.stopped = s.stopped ∧ t.lifetimeCancelled = s.lifetimeCancelled
  wakes : t.wakes.map Wake.uncancelled = s.wakes.map Wake.uncancelled
  made : s.made ≤ t.made
  card : ∀ x < s.made, CardEvolves (s.card x) (t.card x)
  new : ∀ x, s.made ≤ x → x < t.made → (t.card x).state = .unknown ∧ (t.card x).isWaking = false
  page : ∀ x ∈ t.page, x ∈ s.page ∨ s.made ≤ x
  stayed : ∀ x ∈ s.page, x < s.made → x ∈ t.page → (t.card x).raised ≠ (s.card x).raised →
    (t.card x).state = .unknown
  away : ∀ x < s.made, x ∉ s.page → t.card x = s.card x

theorem Evolves.refl (s : State) : Evolves s s where
  checks := rfl
  sweeps := rfl
  registry := rfl
  flags := ⟨rfl, rfl, rfl⟩
  wakes := rfl
  made := Nat.le_refl _
  card x _ := .refl _
  new x h h' := by omega
  page x h := Or.inl h
  stayed x _ _ _ h := absurd rfl h
  away _ _ _ := rfl

theorem Evolves.trans {s t u : State} (h : Evolves s t) (h' : Evolves t u) : Evolves s u where
  checks := h'.checks.trans h.checks
  sweeps := h'.sweeps.trans h.sweeps
  registry := h'.registry.trans h.registry
  flags := ⟨h'.flags.1.trans h.flags.1, h'.flags.2.1.trans h.flags.2.1, h'.flags.2.2.trans h.flags.2.2⟩
  wakes := h'.wakes.trans h.wakes
  made := Nat.le_trans h.made h'.made
  card x hx := (h.card x hx).trans (h'.card x (Nat.lt_of_lt_of_le hx h.made))
  new x hx hx' := by
    by_cases ht : x < t.made
    · obtain ⟨hs, hw⟩ := h.new x hx ht
      have hc := h'.card x ht
      refine ⟨?_, hc.isWaking.trans hw⟩
      rcases hc.state with he | he
      · exact he.trans hs
      · exact he
    · exact h'.new x (Nat.le_of_not_lt ht) hx'
  page x hx := by
    rcases h'.page x hx with ht | ht
    · exact h.page x ht
    · exact Or.inr (Nat.le_trans h.made ht)
  stayed x hx hlt hu hg := by
    have hlt' := Nat.lt_of_lt_of_le hlt h.made
    have ht : x ∈ t.page := (h'.page x hu).resolve_right (by omega)
    by_cases hsame : (t.card x).raised = (s.card x).raised
    · exact h'.stayed x ht hlt' hu (by rwa [hsame])
    · have hunknown := h.stayed x hx hlt ht hsame
      rcases (h'.card x hlt').state with he | he
      · exact he.trans hunknown
      · exact he
  away x hx hoff := by
    have hoff' : x ∉ t.page := fun ht => hoff ((h.page x ht).resolve_right (by omega))
    exact (h'.away x (Nat.lt_of_lt_of_le hx h.made) hoff').trans (h.away x hx hoff)

/-! ## A tidy page -/

/-- The ids of the cards on the page. -/
def ids (s : State) : List Guid := s.page.map fun x => (s.card x).id

structure Tidy (s : State) : Prop where
  made : ∀ x ∈ s.page, x < s.made
  unique : (ids s).Nodup

variable {s : State}

theorem Tidy.nodup (h : Tidy s) : s.page.Nodup := List.Nodup.of_map _ h.unique

theorem Tidy.eq_of_id (h : Tidy s) {x y : Nat} (hx : x ∈ s.page) (hy : y ∈ s.page)
    (he : (s.card x).id = (s.card y).id) : x = y :=
  List.inj_on_of_nodup_map h.unique hx hy he

/-- A page of cards that keep their ids is tidy when it is part of a tidy one. -/
theorem Tidy.of_subset {t : State} (h : Tidy s) (hnodup : t.page.Nodup) (hpage : t.page ⊆ s.page)
    (hmade : t.made = s.made) (hid : ∀ x ∈ s.page, (t.card x).id = (s.card x).id) : Tidy t where
  made x hx := by
    rw [hmade]
    exact h.made x (hpage hx)
  unique := by
    refine List.Nodup.map_on ?_ hnodup
    intro x hx y hy he
    rw [hid x (hpage hx), hid y (hpage hy)] at he
    exact h.eq_of_id (hpage hx) (hpage hy) he

/-! ## The parts of a synchronization -/

theorem uncancelled_modify (wakes : List Wake) (w : Nat) :
    (wakes.modify w fun wake => { wake with cancelled := true }).map Wake.uncancelled =
      wakes.map Wake.uncancelled := by
  apply List.ext_getElem?
  intro i
  rw [List.getElem?_map, List.getElem?_map, List.getElem?_modify]
  split
  · cases wakes[i]? <;> rfl
  · cases wakes[i]? <;> rfl

theorem cancelWake_eq (s : State) (x : Nat) : ∃ wakes, cancelWake s x = { s with wakes := wakes } ∧
    wakes.map Wake.uncancelled = s.wakes.map Wake.uncancelled := by
  unfold cancelWake
  split
  · exact ⟨_, rfl, uncancelled_modify ..⟩
  · exact ⟨s.wakes, rfl, rfl⟩

/-- The state with another list of wakes, the card `x` replaced and another page. -/
def rewritten (s : State) (wakes : List Wake) (x : Nat) (c : Card) (page : List Nat) : State :=
  { s with wakes := wakes, card := Function.update s.card x c, page := page }

theorem removeCard_eq (s : State) (x : Nat) : ∃ wakes,
    removeCard s x = rewritten s wakes x (s.card x).countUp (s.page.erase x) ∧
      wakes.map Wake.uncancelled = s.wakes.map Wake.uncancelled := by
  obtain ⟨wakes, heq, hw⟩ := cancelWake_eq s x
  refine ⟨wakes, ?_, hw⟩
  unfold removeCard
  rw [heq]
  rfl

/-- A card given another target. -/
def Card.retargeted (c : Card) (device : Device) : Card :=
  { c.countUp with
    device := device
    state := .unknown
    detail := str "Configuration changed; awaiting a live status check." }

theorem retarget_eq (s : State) (x : Nat) (device : Device) : ∃ wakes,
    update (retarget s x) x device = rewritten s wakes x ((s.card x).retargeted device) s.page ∧
      wakes.map Wake.uncancelled = s.wakes.map Wake.uncancelled := by
  obtain ⟨wakes, heq, hw⟩ := cancelWake_eq s x
  refine ⟨wakes, ?_, hw⟩
  unfold retarget
  rw [heq]
  simp [update, bump, setCard, rewritten, Card.retargeted]

theorem rewritten_evolves {wakes : List Wake} {x : Nat} {c : Card} {page : List Nat} (hx : x ∉ s.page → c = s.card x)
    (hwakes : wakes.map Wake.uncancelled = s.wakes.map Wake.uncancelled) (hc : CardEvolves (s.card x) c)
    (hpage : page ⊆ s.page) (hstay : x ∈ page → c.raised ≠ (s.card x).raised → c.state = .unknown) :
    Evolves s (rewritten s wakes x c page) where
  checks := rfl
  sweeps := rfl
  registry := rfl
  flags := ⟨rfl, rfl, rfl⟩
  wakes := hwakes
  made := Nat.le_refl _
  card y _ := by
    show CardEvolves _ (Function.update s.card x c y)
    rw [Function.update_apply]
    split
    · subst y
      exact hc
    · exact .refl _
  new y hy hy' := absurd hy' (Nat.not_lt.mpr hy)
  page y hy := Or.inl (hpage hy)
  stayed y _ _ hy hg := by
    revert hg
    show (Function.update s.card x c y).raised ≠ _ → (Function.update s.card x c y).state = _
    rw [Function.update_apply]
    split
    · subst y
      exact hstay hy
    · exact fun hg => absurd rfl hg
  away y _ hoff := by
    show Function.update s.card x c y = _
    rw [Function.update_apply]
    split
    · subst y
      exact hx hoff
    · rfl

theorem rewritten_tidy {wakes : List Wake} {x : Nat} {c : Card} {page : List Nat} (h : Tidy s)
    (hid : c.id = (s.card x).id) (hpage : page ⊆ s.page) (hnodup : page.Nodup) : Tidy (rewritten s wakes x c page) := by
  refine h.of_subset hnodup hpage rfl ?_
  intro y _
  show (Function.update s.card x c y).id = _
  rw [Function.update_apply]
  split
  · subst y
    exact hid
  · rfl

theorem countUp_evolves (c : Card) : CardEvolves c c.countUp where
  id := rfl
  raised := Nat.le_succ _
  isWaking := rfl
  same h := absurd h (Nat.succ_ne_self _)
  state := Or.inl rfl

theorem retargeted_evolves {c : Card} {device : Device} (hid : device.id = c.id) : CardEvolves c (c.retargeted device) where
  id := hid
  raised := Nat.le_succ _
  isWaking := rfl
  same h := absurd h (Nat.succ_ne_self _)
  state := Or.inr rfl

theorem updated_evolves {c : Card} {device : Device} (hid : device.id = c.id) :
    CardEvolves c { c with device := device } where
  id := hid
  raised := Nat.le_refl _
  isWaking := rfl
  same _ := ⟨rfl, rfl⟩
  state := Or.inl rfl

theorem removeCard_evolves (h : Tidy s) {x : Nat} (hx : x ∈ s.page) :
    Evolves s (removeCard s x) ∧ Tidy (removeCard s x) := by
  obtain ⟨wakes, heq, hw⟩ := removeCard_eq s x
  have hsub : s.page.erase x ⊆ s.page := List.erase_subset
  rw [heq]
  refine ⟨rewritten_evolves (absurd hx) hw (countUp_evolves _) hsub ?_, rewritten_tidy h rfl hsub (h.nodup.erase x)⟩
  intro hin
  exact absurd rfl (h.nodup.mem_erase_iff.mp hin).1

/-- The card a device is placed on, when there is one. -/
theorem find_card {device : Device} {x : Nat} (hfind : (s.page.find? fun x => (s.card x).id = device.id) = some x) :
    x ∈ s.page ∧ device.id = (s.card x).id := by
  have hid := List.find?_some hfind
  exact ⟨List.mem_of_find?_eq_some hfind, (of_decide_eq_true hid).symm⟩

/-- The page with a new card for a device. -/
def added (s : State) (device : Device) : State :=
  { setCard s s.made { device := device } with made := s.made + 1, page := s.page ++ [s.made] }

theorem added_card (s : State) (device : Device) {x : Nat} (hx : x < s.made) :
    (added s device).card x = s.card x := setCard_ne s _ (Nat.ne_of_lt hx)

theorem added_new (s : State) (device : Device) : (added s device).card s.made = { device := device } := setCard_self ..

theorem ids_added (h : Tidy s) (device : Device) : ids (added s device) = ids s ++ [device.id] := by
  have hold : s.page.map (fun x => ((added s device).card x).id) = ids s :=
    List.map_congr_left fun x hx => by rw [added_card s device (h.made x hx)]
  show List.map _ (s.page ++ [s.made]) = _
  rw [List.map_append, hold, List.map_singleton, added_new]
  rfl

theorem placeDevice_evolves (h : Tidy s) (device : Device) :
    Evolves s (placeDevice s device) ∧ Tidy (placeDevice s device) := by
  unfold placeDevice
  split
  case h_1 hnone =>
    change Evolves s (added s device) ∧ Tidy (added s device)
    have hpage : ∀ y ∈ (added s device).page, y ∈ s.page ∨ y = s.made := by
      intro y hy
      exact (List.mem_append.mp hy).imp_right List.mem_singleton.mp
    refine ⟨⟨rfl, rfl, rfl, ⟨rfl, rfl, rfl⟩, rfl, Nat.le_succ _, ?_, ?_, ?_, ?_, fun y hy _ => added_card s device hy⟩, ⟨?_, ?_⟩⟩
    · intro y hy
      rw [added_card s device hy]
      exact .refl _
    · intro y hy hy'
      obtain rfl : y = s.made := Nat.le_antisymm (Nat.le_of_lt_succ hy') hy
      rw [added_new]
      exact ⟨rfl, rfl⟩
    · intro y hy
      exact (hpage y hy).imp_right fun he => Nat.le_of_eq he.symm
    · intro y _ hy _ hg
      rw [added_card s device hy] at hg
      exact absurd rfl hg
    · intro y hy
      show y < s.made + 1
      rcases hpage y hy with hy | rfl
      · exact Nat.lt_succ_of_lt (h.made y hy)
      · exact Nat.lt_succ_self _
    · rw [ids_added h, List.nodup_append]
      refine ⟨h.unique, List.nodup_singleton _, ?_⟩
      rintro a ha b hb rfl
      obtain ⟨y, hy, he⟩ := List.mem_map.mp ha
      rw [List.mem_singleton.mp hb] at he
      exact List.find?_eq_none.mp hnone y hy (decide_eq_true he)
  case h_2 x hfind =>
    obtain ⟨hx, hid⟩ := find_card hfind
    by_cases hr : retargets (s.card x) device = true
    · rw [if_pos hr]
      obtain ⟨wakes, heq, hw⟩ := retarget_eq s x device
      rw [heq]
      exact ⟨rewritten_evolves (absurd hx) hw (retargeted_evolves hid) (fun _ hy => hy) fun _ _ => rfl,
        rewritten_tidy h hid (fun _ hy => hy) h.nodup⟩
    · rw [if_neg hr]
      exact ⟨rewritten_evolves (absurd hx) rfl (updated_evolves hid) (fun _ hy => hy) fun _ hg => absurd rfl hg,
        rewritten_tidy h hid (fun _ hy => hy) h.nodup⟩

/-! ## Sorting -/

theorem move_perm {page : List Nat} {x i : Nat} (hx : x ∈ page) (hi : i < page.length) :
    (move page x i).Perm page := by
  have hlen := List.length_erase_of_mem hx
  exact (List.perm_insertIdx x _ (by omega)).trans (List.perm_cons_erase hx).symm

theorem moves_perm (moves : List (Nat × Nat)) {page : List Nat} (h : ∀ p ∈ moves, p.1 ∈ page ∧ p.2 < page.length) :
    (moves.foldl (fun page (p : Nat × Nat) => move page p.1 p.2) page).Perm page := by
  induction moves generalizing page with
  | nil => exact List.Perm.refl _
  | cons p moves ih =>
    obtain ⟨hx, hi⟩ := h p List.mem_cons_self
    have hperm := move_perm hx hi
    refine (ih ?_).trans hperm
    intro q hq
    obtain ⟨hq, hi⟩ := h q (List.mem_cons_of_mem _ hq)
    exact ⟨hperm.mem_iff.mpr hq, hperm.length_eq ▸ hi⟩

variable (le : Str → Str → Bool)

theorem sorted_perm (s : State) : (sorted le s).Perm s.page := List.perm_insertionSort _ _

theorem sortPage_perm (s : State) : (sortPage le s).page.Perm s.page := by
  refine moves_perm _ ?_
  rintro ⟨x, i⟩ hp
  have hget := List.mk_mem_zipIdx_iff_getElem?.mp hp
  obtain ⟨hi, -⟩ := List.getElem?_eq_some_iff.mp hget
  exact ⟨(sorted_perm le s).mem_iff.mp (List.mem_of_getElem? hget), (sorted_perm le s).length_eq ▸ hi⟩

theorem sortPage_evolves (h : Tidy s) : Evolves s (sortPage le s) ∧ Tidy (sortPage le s) := by
  have hperm := sortPage_perm le s
  have heq : sortPage le s = rewritten s s.wakes 0 (s.card 0) (sortPage le s).page := by
    unfold rewritten
    rw [Function.update_eq_self]
    rfl
  rw [heq]
  exact ⟨rewritten_evolves (fun _ => rfl) rfl (.refl _) hperm.subset fun _ hg => absurd rfl hg,
    rewritten_tidy h rfl hperm.subset (hperm.nodup_iff.mpr h.nodup)⟩

/-! ## The whole -/

theorem removed_evolves {cards : List Nat} (hnodup : cards.Nodup) (hcards : cards ⊆ s.page) (h : Tidy s) :
    Evolves s (cards.foldl removeCard s) ∧ Tidy (cards.foldl removeCard s) := by
  induction cards generalizing s with
  | nil => exact ⟨.refl s, h⟩
  | cons x cards ih =>
    obtain ⟨hx, hnodup⟩ := List.nodup_cons.mp hnodup
    obtain ⟨he, ht⟩ := removeCard_evolves h (hcards List.mem_cons_self)
    have hrest : cards ⊆ (removeCard s x).page := by
      obtain ⟨wakes, heq, -⟩ := removeCard_eq s x
      rw [heq]
      intro y hy
      have hyx : y ≠ x := fun he => hx (he ▸ hy)
      exact (List.mem_erase_of_ne hyx).mpr (hcards (List.mem_cons_of_mem x hy))
    obtain ⟨he', ht'⟩ := ih hnodup hrest ht
    exact ⟨he.trans he', ht'⟩

theorem placeDevices_evolves (devices : List Device) (h : Tidy s) :
    Evolves s (devices.foldl placeDevice s) ∧ Tidy (devices.foldl placeDevice s) := by
  induction devices generalizing s with
  | nil => exact ⟨.refl s, h⟩
  | cons device devices ih =>
    obtain ⟨he, ht⟩ := placeDevice_evolves h device
    obtain ⟨he', ht'⟩ := ih ht
    exact ⟨he.trans he', ht'⟩

/-- The page after the cards of no device are taken off. -/
def kept (s : State) (devices : List Device) : State := (s.page.filter (gone s devices)).foldl removeCard s

/-- The page before it is sorted. -/
def placed (s : State) (devices : List Device) : State := devices.foldl placeDevice (kept s devices)

theorem kept_evolves (h : Tidy s) (devices : List Device) : Evolves s (kept s devices) ∧ Tidy (kept s devices) :=
  removed_evolves (h.nodup.filter _) (List.filter_sublist.subset) h

theorem placed_evolves (h : Tidy s) (devices : List Device) :
    Evolves (kept s devices) (placed s devices) ∧ Tidy (placed s devices) :=
  placeDevices_evolves devices (kept_evolves h devices).2

theorem synchronize_evolves (h : Tidy s) (devices : List Device) :
    Evolves s (synchronize le s devices) ∧ Tidy (synchronize le s devices) := by
  obtain ⟨hkept, -⟩ := kept_evolves h devices
  obtain ⟨hplaced, ht⟩ := placed_evolves h devices
  obtain ⟨hsorted, ht'⟩ := sortPage_evolves le ht
  exact ⟨(hkept.trans hplaced).trans hsorted, ht'⟩

/-! ## Which cards stay -/

theorem removed_page (cards : List Nat) (s : State) :
    (cards.foldl removeCard s).page = s.page.diff cards := by
  induction cards generalizing s with
  | nil => rfl
  | cons x cards ih =>
    obtain ⟨wakes, heq, -⟩ := removeCard_eq s x
    rw [List.foldl_cons, ih, heq, List.diff_cons]
    rfl

theorem mem_kept (h : Tidy s) (devices : List Device) (x : Nat) :
    x ∈ (kept s devices).page ↔ x ∈ s.page ∧ gone s devices x = false := by
  unfold kept
  rw [removed_page, h.nodup.mem_sdiff_iff]
  simp only [List.mem_filter, not_and, Bool.not_eq_true]
  exact and_congr_right fun hx => ⟨fun hg => hg hx, fun hg _ => hg⟩

theorem placeDevice_page (s : State) (device : Device) : s.page ⊆ (placeDevice s device).page := by
  unfold placeDevice
  split
  · exact fun _ hx => List.mem_append_left _ hx
  · rename_i x _
    split
    · obtain ⟨wakes, heq, -⟩ := retarget_eq s x device
      rw [heq]
      exact fun _ hx => hx
    · exact fun _ hx => hx

theorem placed_page (devices : List Device) (s : State) : s.page ⊆ (devices.foldl placeDevice s).page := by
  induction devices generalizing s with
  | nil => exact fun _ hx => hx
  | cons d devices ih => exact fun _ hx => ih _ (placeDevice_page s d hx)

/-- Of the cards there were, those stay on the page whose id some device has. -/
theorem synchronize_page (h : Tidy s) (devices : List Device) {x : Nat} (hx : x < s.made) :
    x ∈ (synchronize le s devices).page ↔ x ∈ s.page ∧ gone s devices x = false := by
  obtain ⟨hkept, -⟩ := kept_evolves h devices
  obtain ⟨hplaced, -⟩ := placed_evolves h devices
  show x ∈ (sortPage le (placed s devices)).page ↔ _
  rw [(sortPage_perm le _).mem_iff, ← mem_kept h devices x]
  constructor
  · intro hin
    have hlt := Nat.lt_of_lt_of_le hx hkept.made
    exact (hplaced.page x hin).resolve_right (by omega)
  · exact fun hin => placed_page devices _ hin

/-! ## Which generations are counted up -/

theorem removeCard_card (s : State) (x y : Nat) : (removeCard s x).card y =
    if y = x then (s.card x).countUp else s.card y := by
  obtain ⟨wakes, heq, -⟩ := removeCard_eq s x
  rw [heq]
  exact Function.update_apply ..

theorem removed_other {cards : List Nat} {x : Nat} (hx : x ∉ cards) (s : State) :
    (cards.foldl removeCard s).card x = s.card x := by
  induction cards generalizing s with
  | nil => rfl
  | cons y cards ih =>
    rw [List.foldl_cons, ih (fun hin => hx (List.mem_cons_of_mem _ hin)), removeCard_card, if_neg]
    rintro rfl
    exact hx List.mem_cons_self

/-- A card taken off once counts up once. -/
theorem removed_card {cards : List Nat} (hnodup : cards.Nodup) {x : Nat} (hx : x ∈ cards) (s : State) :
    (cards.foldl removeCard s).card x = (s.card x).countUp := by
  induction cards generalizing s with
  | nil => cases hx
  | cons y cards ih =>
    obtain ⟨hy, hnodup⟩ := List.nodup_cons.mp hnodup
    rw [List.foldl_cons]
    by_cases hxy : x = y
    · subst hxy
      rw [removed_other hy, removeCard_card, if_pos rfl]
    · rw [ih hnodup ((List.mem_cons.mp hx).resolve_left hxy), removeCard_card, if_neg hxy]

/-- A device placed on a tidy page, as a card of the page sees it. -/
theorem placeDevice_card (h : Tidy s) (device : Device) {x : Nat} (hx : x ∈ s.page) :
    (placeDevice s device).card x =
      if device.id = (s.card x).id then
        if retargets (s.card x) device then (s.card x).retargeted device else { s.card x with device := device }
      else s.card x := by
  unfold placeDevice
  split
  case h_1 hnone =>
    have hne : ¬ device.id = (s.card x).id := by
      intro he
      exact List.find?_eq_none.mp hnone x hx (decide_eq_true he.symm)
    rw [if_neg hne]
    exact added_card s device (h.made x hx)
  case h_2 y hfind =>
    obtain ⟨hy, hid⟩ := find_card hfind
    by_cases hxy : x = y
    · subst hxy
      rw [if_pos hid]
      split
      · obtain ⟨wakes, heq, -⟩ := retarget_eq s x device
        rw [heq]
        exact Function.update_self ..
      · exact setCard_self ..
    · have hne : ¬ device.id = (s.card x).id := fun he => hxy (h.eq_of_id hx hy (he.symm.trans hid))
      rw [if_neg hne]
      split
      · obtain ⟨wakes, heq, -⟩ := retarget_eq s y device
        rw [heq]
        exact Function.update_of_ne hxy ..
      · exact setCard_ne s _ hxy

/-- A device that is another target stays one after the card took a device that is not. -/
theorem retargets_after {c : Card} {d device : Device} (hd : retargets c d = false) (h : retargets c device = true) :
    retargets { c with device := d } device = true := by
  simp only [retargets, Bool.or_eq_true, Bool.or_eq_false_iff, Bool.not_eq_true', Bool.not_eq_false', Bool.and_eq_true,
    Bool.and_eq_false_iff, decide_eq_true_eq, decide_eq_false_iff_not] at *
  obtain ⟨hsame, hdisables⟩ := hd
  rcases h with h | ⟨hne, hdisabled⟩
  · left
    by_contra hother
    rw [Bool.not_eq_false] at hother
    rw [DeviceTargets.sameWake_trans hsame hother] at h
    cases h
  · right
    refine ⟨?_, hdisabled⟩
    intro he
    rcases hdisables with hcap | hcap
    · exact hne ((not_not.mp hcap).trans he)
    · exact hcap (he.trans hdisabled)

theorem placed_raised {devices : List Device} {x : Nat} (h : Tidy s) (hx : x ∈ s.page) {device : Device}
    (hdevice : device ∈ devices) (hid : device.id = (s.card x).id) (hr : retargets (s.card x) device = true) :
    (s.card x).raised < ((devices.foldl placeDevice s).card x).raised := by
  induction devices generalizing s with
  | nil => cases hdevice
  | cons d devices ih =>
    obtain ⟨hstep, ht⟩ := placeDevice_evolves h d
    have hcard := placeDevice_card h d hx
    have hx' := placeDevice_page s d hx
    by_cases hd : d.id = (s.card x).id
    · rw [if_pos hd] at hcard
      by_cases hrd : retargets (s.card x) d = true
      · rw [if_pos hrd] at hcard
        obtain ⟨hrest, -⟩ := placeDevices_evolves devices ht
        have hle := (hrest.card x (ht.made x hx')).raised
        rw [hcard] at hle
        exact Nat.lt_of_succ_le hle
      · rw [if_neg hrd] at hcard
        have hin : device ∈ devices := by
          rcases List.mem_cons.mp hdevice with rfl | hin
          · exact absurd hr hrd
          · exact hin
        have hlt := ih ht hx' hin (by rw [hcard]; exact hid.trans hd.symm)
          (by rw [hcard]; exact retargets_after ((Bool.not_eq_true _).mp hrd) hr)
        rwa [hcard] at hlt
    · rw [if_neg hd] at hcard
      have hin : device ∈ devices := by
        rcases List.mem_cons.mp hdevice with rfl | hin
        · exact absurd hid hd
        · exact hin
      have hlt := ih ht hx' hin (by rw [hcard]; exact hid) (by rw [hcard]; exact hr)
      rwa [hcard] at hlt

/-- A card that a synchronization takes off the page is counted up. -/
theorem synchronize_gone (h : Tidy s) {devices : List Device} {x : Nat} (hx : x ∈ s.page)
    (hgone : gone s devices x = true) : (synchronize le s devices).card x = (s.card x).countUp := by
  obtain ⟨hkept, -⟩ := kept_evolves h devices
  obtain ⟨hplaced, -⟩ := placed_evolves h devices
  have hoff : x ∉ (kept s devices).page := fun hin => by
    rw [((mem_kept h devices x).mp hin).2] at hgone
    cases hgone
  calc (synchronize le s devices).card x = (placed s devices).card x := rfl
    _ = (kept s devices).card x := hplaced.away x (Nat.lt_of_lt_of_le (h.made x hx) hkept.made) hoff
    _ = (s.card x).countUp := removed_card (h.nodup.filter _) (List.mem_filter.mpr ⟨hx, hgone⟩) s

/-- A synchronization takes the card off the page, or gives it another target. -/
def Invalidates (s : State) (devices : List Device) (x : Nat) : Prop :=
  x ∈ s.page ∧ (gone s devices x = true ∨
    ∃ device ∈ devices, device.id = (s.card x).id ∧ retargets (s.card x) device = true)

theorem invalidated_raised (h : Tidy s) {devices : List Device} {x : Nat} (hx : Invalidates s devices x) :
    (s.card x).raised < ((synchronize le s devices).card x).raised := by
  obtain ⟨hpage, hgone | ⟨device, hdevice, hid, hr⟩⟩ := hx
  · rw [synchronize_gone le h hpage hgone]
    exact Nat.lt_succ_self _
  · have hstays : gone s devices x = false := by
      refine (Bool.not_eq_true _).mp fun hgone => ?_
      exact of_decide_eq_true (List.all_eq_true.mp hgone device hdevice) hid
    have hsame : (kept s devices).card x = s.card x := by
      refine removed_other ?_ s
      intro hin
      rw [(List.mem_filter.mp hin).2] at hstays
      cases hstays
    have hlt := placed_raised (kept_evolves h devices).2 ((mem_kept h devices x).mpr ⟨hpage, hstays⟩) hdevice
      (by rw [hsame]; exact hid) (by rw [hsame]; exact hr)
    rwa [hsame] at hlt

end MythLab.App.DeviceActivityViewModel
