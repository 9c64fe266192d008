/-
  MythLab.App.RendererAcknowledgement — outputs and their acknowledgements.

  In a session the window posts an output, waits for the acknowledgement of its id, and
  reads on: the history alternates (`History`), and while a run reads, nothing of its
  session waits (`Waits`). The ids count the outputs of the window, in 32 bits: an
  acknowledgement releases a wait only if its id is that of the last output, which no
  output before has, unless 2^32 outputs lie between.
-/
import Mathlib.Algebra.Group.Nat.Defs
import MythLab.Lib.StopAndWait
import MythLab.App.SessionOwners

namespace MythLab.App.TerminalSessions

open Lib Dotnet Function

variable {s s' t : State} {e : Event}

/-! ## What has been posted and acknowledged -/

namespace Happening

/-- The output that is posted for a session. -/
def posts (i : Nat) : Happening → Option Int32
  | .output j id _ => if j = i then some id else none
  | _ => none

def acknowledges : Happening → Option Int32
  | .acknowledged id => some id
  | _ => none

def outputId : Happening → Option Int32
  | .output _ id _ => some id
  | _ => none

/-- The data of an output that is posted for a session. -/
def payload (i : Nat) : Happening → Option Str
  | .output j _ data => if j = i then some data else none
  | _ => none

/-- The bytes that are read from a session. -/
def bytesOf (i : Nat) : Happening → Option (List UInt8)
  | .read j bytes => if j = i then some bytes else none
  | _ => none

end Happening

/-- The ids of the outputs, oldest first. -/
def outputs (h : List Happening) : List Int32 := h.filterMap Happening.outputId

def payloads (i : Nat) (h : List Happening) : List Str := h.filterMap (Happening.payload i)

def reads (i : Nat) (h : List Happening) : List (List UInt8) := h.filterMap (Happening.bytesOf i)

/-- The id waits for its acknowledgement, in a session. -/
def Waiting (i : Nat) (h : List Happening) (id : Int32) : Prop :=
  Unanswered (Happening.posts i) Happening.acknowledges h id

/-- The output posted last. -/
def Latest (i : Nat) (id : Int32) (h : List Happening) : Prop :=
  ∃ A data B, h = A ++ .output i id data :: B ∧ outputs B = []

theorem outputs_snoc (h : List Happening) (x : Happening) :
    outputs (h ++ [x]) = outputs h ++ (x.outputId).toList := by
  rw [outputs, List.filterMap_append]
  cases x <;> rfl

theorem Latest.snoc {i : Nat} {id : Int32} {h : List Happening} {x : Happening} (hl : Latest i id h)
    (hx : x.outputId = none) : Latest i id (h ++ [x]) := by
  obtain ⟨A, data, B, rfl, hB⟩ := hl
  refine ⟨A, data, B ++ [x], by simp, ?_⟩
  rw [outputs_snoc, hB, hx]
  rfl

/-! ## The history -/

structure History (s : State) : Prop where
  known : ∀ i, ∀ x ∈ s.history, x.posts i ≠ none → i < s.sessions
  alternates : ∀ i, Alternates (Happening.posts i) Happening.acknowledges s.history
  numbered : outputs s.history = (List.range (outputs s.history).length).map fun n => Int32.ofNat (n + 1)
  latest : s.outputId = Int32.ofNat (outputs s.history).length
  payloads : ∀ i, payloads i s.history = (reads i s.history).map toBase64String

theorem history_shown : History shown where
  known _ _ h := absurd h List.not_mem_nil
  alternates _ := .nil
  numbered := rfl
  latest := rfl
  payloads _ := rfl

theorem posts_of_outputId {x : Happening} (hx : x.outputId = none) (i : Nat) : x.posts i = none := by
  cases x with
  | output => cases hx
  | read | reset | acknowledged => rfl

/-- Something passes that is no output. -/
theorem History.record (h : History s) {x : Happening} (hx : x.outputId = none) (hread : ∀ i, x.bytesOf i = none) :
    History (s.record x) := by
  have houtputs : outputs (s.history ++ [x]) = outputs s.history := by
    rw [outputs_snoc, hx]
    exact List.append_nil _
  have hpayload (i : Nat) : x.payload i = none := by
    cases x with
    | output => cases hx
    | read | reset | acknowledged => rfl
  constructor
  · intro i y hy hposts
    rcases List.mem_append.mp hy with hy | hy
    · exact h.known i y hy hposts
    · rw [List.mem_singleton.mp hy] at hposts
      exact absurd (posts_of_outputId hx i) hposts
  · exact fun i => (h.alternates i).snoc fun hposts => absurd (posts_of_outputId hx i) hposts
  · simp only [State.record, houtputs]
    exact h.numbered
  · simp only [State.record, houtputs]
    exact h.latest
  · intro i
    simp only [State.record, TerminalSessions.payloads, reads, List.filterMap_append, List.filterMap_cons,
      List.filterMap_nil, hpayload i, hread i, List.append_nil]
    exact h.payloads i

/-- The next output: nothing of its session waits. -/
theorem History.output (h : History s) {i : Nat} {bytes : List UInt8} (hi : i < s.sessions)
    (hquiet : ∀ id, ¬ Waiting i s.history id) : History (s.output i bytes) := by
  have hid : s.outputId + 1 = Int32.ofNat ((outputs s.history).length + 1) := by
    rw [h.latest, Int32.ofNat_add]
    rfl
  have houtputs : outputs (s.output i bytes).history = outputs s.history ++ [s.outputId + 1] := by
    simp only [State.output, State.record, outputs_snoc, Happening.outputId, Option.toList, List.append_nil]
  have hread : ∀ id, ¬ Waiting i (s.history ++ [.read i bytes]) id := by
    intro id hw
    rcases unanswered_snoc.mp hw with hp | ⟨hw, -⟩
    · cases hp
    · exact hquiet id hw
  constructor
  · intro j x hx hposts
    simp only [State.output, State.record, List.mem_append, List.mem_singleton] at hx
    rcases hx with (hx | rfl) | rfl
    · exact h.known j x hx hposts
    · exact absurd rfl hposts
    · simp only [Happening.posts, ne_eq, ite_eq_right_iff, reduceCtorEq, imp_false, not_not] at hposts
      exact hposts ▸ hi
  · intro j
    refine ((h.alternates j).snoc fun hposts => absurd rfl hposts).snoc fun hposts id hw => ?_
    simp only [Happening.posts, ne_eq, ite_eq_right_iff, reduceCtorEq, imp_false, not_not] at hposts
    subst hposts
    exact hread id hw
  · rw [houtputs, List.length_append, List.length_singleton, List.range_succ, List.map_append, ← h.numbered,
      List.map_singleton, ← hid]
  · rw [houtputs, List.length_append, List.length_singleton, ← hid]
    rfl
  · intro j
    have hj := h.payloads j
    simp only [TerminalSessions.payloads, reads] at hj
    simp only [State.output, State.record, TerminalSessions.payloads, reads, List.filterMap_append, List.filterMap_cons,
      List.filterMap_nil, Happening.payload, Happening.bytesOf, List.append_nil, hj]
    by_cases hij : i = j <;> simp [hij]

/-- An id comes again only after 2^32 outputs. -/
theorem History.eq_latest (h : History s) {A B : List Happening} {i : Nat} {data : Str}
    (e : s.history = A ++ .output i s.outputId data :: B) : outputs B = [] ∨ 2 ^ 32 ≤ (outputs B).length := by
  have hsplit : outputs s.history = outputs A ++ s.outputId :: outputs B := by
    rw [e, outputs, List.filterMap_append]
    rfl
  have hlength : (outputs s.history).length = (outputs A).length + 1 + (outputs B).length := by
    rw [hsplit, List.length_append, List.length_cons]
    omega
  have hid : s.outputId = Int32.ofNat ((outputs A).length + 1) := by
    have hget := congrArg (fun l : List Int32 => l[(outputs A).length]?) (hsplit.symm.trans h.numbered)
    simp only [List.getElem?_append_right (Nat.le_refl _), Nat.sub_self, List.getElem?_cons_zero, List.getElem?_map,
      List.getElem?_range (show (outputs A).length < (outputs s.history).length by omega), Option.map_some] at hget
    exact Option.some.inj hget
  have hbits := congrArg (fun x : Int32 => x.toBitVec.toNat) (hid.symm.trans h.latest)
  simp only [Int32.toBitVec_ofNat', BitVec.toNat_ofNat, hlength] at hbits
  by_cases hB : outputs B = []
  · exact Or.inl hB
  · have hpos : 0 < (outputs B).length := List.length_pos_iff.mpr hB
    exact Or.inr (by omega)

/-! ## The wait -/

/-- What the read loop knows at each of its awaits. -/
structure Waits (s : State) : Prop where
  quiet : ∀ r, s.phase r = .resizing ∨ (∃ j, s.phase r = .reading j) →
    ∀ i, s.session = some i → ∀ id, ¬ Waiting i s.history id
  waiting : ∀ r a, s.phase r = .acknowledging a → s.acknowledgement = some a ∧ ∃ i, s.session = some i ∧
    (s.completed a = true → ∀ id, ¬ Waiting i s.history id) ∧ (∀ id, Waiting i s.history id → id = s.outputId) ∧
    Latest i s.outputId s.history

theorem waits_shown : Waits shown where
  quiet r h := by rcases h with h | ⟨j, h⟩ <;> cases h
  waiting r a h := nomatch h

/-- Where no run holds a session there is nothing to know. -/
theorem Waits.of_none (h : ∀ r, (s.phase r).stage ≠ .held) : Waits s where
  quiet r hr := absurd (by rcases hr with hr | ⟨j, hr⟩ <;> rw [hr] <;> rfl) (h r)
  waiting r a hr := absurd (by rw [hr]; rfl) (h r)

/-- A step that brings no run nearer to a session, and passes nothing. -/
structure Fades (s s' : State) : Prop where
  history : s'.history = s.history
  outputId : s'.outputId = s.outputId
  acknowledgement : s'.acknowledgement = s.acknowledgement
  completed : s'.completed = s.completed
  sessions : s'.sessions = s.sessions
  held : ∀ r, (s'.phase r).stage = .held → s'.phase r = s.phase r ∧ s'.session = s.session

theorem History.fades (h : History s) (hf : Fades s s') : History s' := by
  constructor
  · rw [hf.history, hf.sessions]; exact h.known
  · rw [hf.history]; exact h.alternates
  · rw [hf.history]; exact h.numbered
  · rw [hf.history, hf.outputId]; exact h.latest
  · rw [hf.history]; exact h.payloads

theorem Waits.fades (h : Waits s) (hf : Fades s s') : Waits s' := by
  constructor
  · intro r hr i hi
    have hheld : (s'.phase r).stage = .held := by rcases hr with hr | ⟨j, hr⟩ <;> rw [hr] <;> rfl
    obtain ⟨hphase, hsession⟩ := hf.held r hheld
    rw [hf.history]
    exact h.quiet r (hphase ▸ hr) i (hsession ▸ hi)
  · intro r a hr
    obtain ⟨hphase, hsession⟩ := hf.held r (by rw [hr]; rfl)
    rw [hf.history, hf.outputId, hf.acknowledgement, hf.completed, hsession]
    exact h.waiting r a (hphase ▸ hr)

namespace Fades

theorem refl (s : State) : Fades s s := ⟨rfl, rfl, rfl, rfl, rfl, fun _ _ => ⟨rfl, rfl⟩⟩

/-- One run changes its phase, to one without a session. -/
theorem of_update {r : Nat} {p : Phase} (hp : p.stage ≠ .held) (hphase : s'.phase = update s.phase r p)
    (hhistory : s'.history = s.history) (hid : s'.outputId = s.outputId) (hack : s'.acknowledgement = s.acknowledgement)
    (hcompleted : s'.completed = s.completed) (hsessions : s'.sessions = s.sessions) (hsession : s'.session = s.session) :
    Fades s s' := by
  refine ⟨hhistory, hid, hack, hcompleted, hsessions, fun r' h => ⟨?_, hsession⟩⟩
  rw [hphase] at h ⊢
  by_cases hr : r' = r
  · simp only [hr, update_self] at h
    exact absurd h hp
  · exact update_of_ne hr _ _

theorem setPhase (s : State) (r : Nat) {p : Phase} (hp : p.stage ≠ .held) : Fades s (s.setPhase r p) :=
  of_update hp rfl rfl rfl rfl rfl rfl rfl

theorem unwind (s : State) (r : Nat) : Fades s (s.unwind r) := by
  obtain ⟨f, d, p, hp, -, hs⟩ := s.unwind_eq r
  have hstage : p.stage ≠ .held := by rcases hp with rfl | rfl | rfl <;> nofun
  rw [hs]
  exact of_update hstage rfl rfl rfl rfl rfl rfl rfl

theorem restart (s : State) (k : Nat) : Fades s (s.restart k) := by
  unfold State.restart
  split
  · exact ⟨rfl, rfl, rfl, rfl, rfl, fun _ _ => ⟨rfl, rfl⟩⟩
  · exact of_update (r := s.runs) (p := .initializing) nofun rfl rfl rfl rfl rfl rfl rfl

/-- The only run that has not ended disposes of its session. -/
theorem disposed (ht : Turns s) {r : Nat} (hr : s.phase r = .disposing) : Fades s (s.disposed r) := by
  refine ⟨rfl, rfl, rfl, rfl, rfl, ?_⟩
  intro r' hr'
  by_cases hrr : r' = r
  · simp only [State.disposed, State.leave, State.setPhase, hrr, update_self] at hr'
    split at hr' <;> cases hr'
  · have hphase : (s.disposed r).phase r' = s.phase r' := update_of_ne hrr _ _
    rw [hphase] at hr'
    refine absurd (ht.eq_of_active (active_of_stage (by simp [hr'])) ?_) hrr
    simp [hr]

end Fades

/-- The steps in which something passes, or a run comes nearer to its session. -/
def Event.speaks : Event → Bool
  | .message (.ack _) | .prepared _ _ | .connected _ _ | .resized _ _ | .read _ _ _ | .waited _ _ => true
  | _ => false

theorem Change.fades (ht : Turns s) (h : Change s e s') : Fades s s' ∨ e.speaks = true := by
  obtain ⟨f, -, hf⟩ := s.cancel_eq
  cases h with
  | refused => exact Or.inl (.refl s)
  | reconnect | disconnect | close =>
    unfold State.beginStop
    rw [hf]
    exact Or.inl ⟨rfl, rfl, rfl, rfl, rfl, fun _ _ => ⟨rfl, rfl⟩⟩
  | stopReturns | closed | initialized | writerTakes | writerReturns =>
    exact Or.inl ⟨rfl, rfl, rfl, rfl, rfl, fun _ _ => ⟨rfl, rfl⟩⟩
  | restart => exact Or.inl (.restart s _)
  | rendererFails | writerFails =>
    simp only [State.writerFails, hf]
    exact Or.inl ⟨rfl, rfl, rfl, rfl, rfl, fun _ _ => ⟨rfl, rfl⟩⟩
  | @message m =>
    obtain ⟨f, q, w, l, b, u, c, -, hs, ⟨rfl, rfl⟩ | ⟨id, rfl⟩⟩ := s.onMessage_eq m
    · rw [hs]
      exact Or.inl ⟨rfl, rfl, rfl, rfl, rfl, fun _ _ => ⟨rfl, rfl⟩⟩
    · exact Or.inr rfl
  | @paste text allowed =>
    obtain ⟨f, q, -, hs⟩ := s.paste_eq text allowed
    rw [hs]
    exact Or.inl ⟨rfl, rfl, rfl, rfl, rfl, fun _ _ => ⟨rfl, rfl⟩⟩
  | prepared | connected | resized | read | waited => exact Or.inr rfl
  | disposed hr => exact Or.inl (.disposed ht hr)
  | joined => exact Or.inl (.setPhase s _ (by simp [Phase.stage]))

/-! ## The steps -/

theorem unwind_stage (s : State) (r : Nat) : ((s.unwind r).phase r).stage ≠ .held := by
  obtain ⟨f, d, p, hp, -, hs⟩ := s.unwind_eq r
  simp only [hs, update_self]
  rcases hp with rfl | rfl | rfl <;> nofun

/-- Past its `finally`, the only run that has not ended holds no session. -/
theorem Turns.unwind_stage (h : Turns s) {r : Nat} (hr : s.phase r ≠ .ended) (r' : Nat) :
    ((s.unwind r).phase r').stage ≠ .held := by
  intro hheld
  have hphase := ((Fades.unwind s r).held r' hheld).1
  have hactive : s.phase r' ≠ .ended := active_of_stage (by rw [← hphase, hheld]; nofun)
  exact TerminalSessions.unwind_stage s r (h.eq_of_active hactive hr ▸ hheld)

structure Acks (s : State) : Prop where
  history : History s
  waits : Waits s

theorem Acks.fades (h : Acks s) (hf : Fades s s') : Acks s' := ⟨h.history.fades hf, h.waits.fades hf⟩

theorem waiting_snoc {i : Nat} {h : List Happening} {x : Happening} (hx : x.outputId = none) {id : Int32} :
    Waiting i (h ++ [x]) id ↔ Waiting i h id ∧ x.acknowledges ≠ some id := by
  refine unanswered_snoc.trans ⟨?_, Or.inr⟩
  rintro (hposts | hw)
  · exact absurd ((posts_of_outputId hx i).symm.trans hposts) nofun
  · exact hw

theorem Waits.record (h : Waits s) {x : Happening} (hx : x.outputId = none) : Waits (s.record x) := by
  have hbefore {i : Nat} {id : Int32} (hw : Waiting i (s.record x).history id) : Waiting i s.history id :=
    ((waiting_snoc hx).mp hw).1
  constructor
  · exact fun r hr i hi id hw => h.quiet r hr i hi id (hbefore hw)
  · intro r a hr
    obtain ⟨hack, i, hi, hquiet, hlast, hlatest⟩ := h.waiting r a hr
    exact ⟨hack, i, hi, fun hc id hw => hquiet hc id (hbefore hw), fun id hw => hlast id (hbefore hw), hlatest.snoc hx⟩

theorem Acks.record (h : Acks s) {x : Happening} (hx : x.outputId = none) (hread : ∀ i, x.bytesOf i = none) :
    Acks (s.record x) := ⟨h.history.record hx hread, h.waits.record hx⟩

/-- An acknowledgement comes. -/
theorem Acks.ack (h : Acks s) (id : Int32) : Acks (s.onMessage (.ack id)) := by
  have hrecord : Acks (s.record (.acknowledged id)) := h.record rfl fun _ => rfl
  unfold State.onMessage
  dsimp only
  split
  · rename_i a ha
    split
    · rename_i hid
      refine ⟨?_, ?_, ?_⟩
      · exact { hrecord.history with }
      · exact hrecord.waits.quiet
      · intro r b hr
        obtain ⟨hack, i, hi, -, hlast, hlatest⟩ := hrecord.waits.waiting r b hr
        refine ⟨hack, i, hi, fun _ id' hw => ?_, hlast, hlatest⟩
        -- What waited was the last output, and this is its acknowledgement.
        have hid' : id' = s.outputId := hlast id' hw
        exact ((waiting_snoc rfl).mp hw).2 (by rw [hid', ← hid]; rfl)
    · exact hrecord
  · exact hrecord

theorem Acks.startRead (h : Acks s) {r : Nat} (hquiet : ∀ i, s.session = some i → ∀ id, ¬ Waiting i s.history id) :
    Acks (s.startRead r) := by
  unfold State.startRead
  split
  · exact h.fades (.unwind s r)
  · refine ⟨{ h.history with }, ?_, ?_⟩
    · intro r' hr' i hi
      by_cases hr : r' = r
      · exact hquiet i hi
      · simp only [State.setPhase, update_of_ne hr] at hr'
        exact h.waits.quiet r' hr' i hi
    · intro r' a hr'
      by_cases hr : r' = r
      · simp only [State.setPhase, hr, update_self, reduceCtorEq] at hr'
      · simp only [State.setPhase, update_of_ne hr] at hr'
        exact h.waits.waiting r' a hr'

theorem Acks.connected (h : Acks s) (ht : Turns s) {r : Nat} (hr : s.phase r = .connecting) (ok : Bool) :
    Acks (s.connected r ok) := by
  cases ok
  · exact h.fades (.unwind s r)
  · have hother {r' : Nat} {p : Phase} (hp : p.stage = .held) (hr' : (s.connected r true).phase r' = p) :
        p = .resizing := by
      by_cases hrr : r' = r
      · exact hr'.symm.trans (hrr ▸ update_self r _ _)
      · have hphase : s.phase r' = p := (update_of_ne hrr _ _).symm.trans hr'
        refine absurd (ht.eq_of_active (active_of_stage (by rw [hphase, hp]; nofun)) ?_) hrr
        rw [hr]
        nofun
    refine ⟨?_, ?_, ?_⟩
    · exact { h.history with known := fun i x hx hp => Nat.lt_succ_of_lt (h.history.known i x hx hp) }
    · rintro r' - i hi id hw
      cases hi
      obtain ⟨x, hx, hposts⟩ := sends_of_unanswered hw
      exact Nat.lt_irrefl _ (h.history.known s.sessions x hx (by rw [hposts]; nofun))
    · intro r' a hr'
      exact nomatch hother rfl hr'

theorem Acks.read (h : Acks s) (ho : Owns s) (ht : Turns s) {r i : Nat} (hr : s.phase r = .reading i)
    (bytes : Option (List UInt8)) (posted : Bool) : Acks (s.read r i bytes posted) := by
  have hactive : s.phase r ≠ .ended := by rw [hr]; nofun
  have hsession : s.session = some i := ho.reading r i hr
  have hquiet : ∀ id, ¬ Waiting i s.history id := h.waits.quiet r (Or.inr ⟨i, hr⟩) i hsession
  unfold State.read
  split
  · exact h.fades (.unwind s r)
  · exact h.fades (.unwind s r)
  · rename_i bytes _
    have houtput : History (s.output i bytes) := h.history.output (ho.field i hsession) hquiet
    have htoutput : Turns (s.output i bytes) := { ht with }
    split
    · have hother {r' : Nat} {p : Phase} (hp : p.stage = .held)
          (hr' : ((s.output i bytes).setPhase r (.acknowledging s.acknowledgements)).phase r' = p) :
          p = .acknowledging s.acknowledgements := by
        by_cases hrr : r' = r
        · exact hr'.symm.trans (hrr ▸ update_self r _ _)
        · have hphase : s.phase r' = p := (update_of_ne hrr _ _).symm.trans hr'
          exact absurd (ht.eq_of_active (active_of_stage (by rw [hphase, hp]; nofun)) hactive) hrr
      refine ⟨{ houtput with }, ?_, ?_⟩
      · rintro r' (hr' | ⟨j, hr'⟩)
        · exact nomatch hother rfl hr'
        · exact nomatch hother rfl hr'
      · intro r' a hr'
        cases hother rfl hr'
        refine ⟨rfl, i, hsession, fun hc => ?_, fun id hw => ?_, ?_⟩
        · simp only [State.setPhase, State.output, update_self, Bool.false_eq_true] at hc
        · rcases unanswered_snoc.mp hw with hid | ⟨hw, -⟩
          · simp only [Happening.posts, if_true, Option.some.injEq] at hid
            exact hid.symm
          · exact absurd ((waiting_snoc rfl).mp hw).1 (hquiet id)
        · exact ⟨s.history ++ [.read i bytes], toBase64String bytes, [], rfl, rfl⟩
    · have hunwind := Fades.unwind (s.output i bytes) r
      exact ⟨houtput.fades hunwind, .of_none (htoutput.unwind_stage hactive)⟩

theorem Acks.step (h : Acks s) (ho : Owns s) (ht : Turns s) (hc : Change s e s') : Acks s' := by
  rcases hc.fades ht with hfades | hspeaks
  · exact h.fades hfades
  · cases hc with
    | refused => exact h
    | @message m =>
      cases m with
      | ack id => exact h.ack id
      | _ => cases hspeaks
    | @prepared r posted hr =>
      have hrecord : Acks (s.record .reset) := h.record rfl fun _ => rfl
      unfold State.prepared
      split
      · exact h.fades (.unwind s r)
      · split
        · exact hrecord.fades (.setPhase _ r nofun)
        · exact hrecord.fades (.unwind _ r)
    | connected hr => exact h.connected ht hr _
    | @resized r ok hr =>
      unfold State.resized
      split
      · rename_i i c _ _
        have hwriter : Fades s { s with writer := update s.writer r (some ⟨i, c, .idle⟩) } :=
          ⟨rfl, rfl, rfl, rfl, rfl, fun _ _ => ⟨rfl, rfl⟩⟩
        exact (h.fades hwriter).startRead fun j hj => h.waits.quiet r (Or.inl hr) j hj
      · exact h.fades (.unwind s r)
    | read hr => exact h.read ho ht hr _ _
    | @waited r a late hr =>
      obtain ⟨-, i, hi, hquiet, -⟩ := h.waits.waiting r a hr
      unfold State.waited
      split
      · exact h.fades (.unwind s r)
      · split
        · rename_i hcompleted
          refine h.startRead fun j hj => ?_
          cases hi.symm.trans hj
          exact hquiet hcompleted
        · exact h
    | writerFails _ he => rcases he with rfl | rfl <;> cases hspeaks
    | _ => cases hspeaks

theorem acks_of_reach (h : window.Reach s) : Acks s := by
  have hall : Inv s ∧ Acks s := by
    refine h.inv (I := fun s => Inv s ∧ Acks s) ?_ ?_
    · rintro s rfl
      exact ⟨⟨turns_shown, owns_shown, inputs_shown⟩, history_shown, waits_shown⟩
    · rintro s e s' ⟨hinv, hacks⟩ hs
      have hc := step_change hs
      exact ⟨hinv.step hc, hacks.step hinv.owns hinv.turns hc⟩
  exact hall.2

/-! ## Whole runs -/

/-- Only the acknowledgement of the last output completes a task. -/
theorem Change.completes (ht : Turns s) (h : Change s e s') {a : Nat} (ha : s'.completed a = true)
    (hbefore : s.completed a = false) : e = .message (.ack s.outputId) := by
  have hsame (hs : s'.completed = s.completed) : e = .message (.ack s.outputId) := by
    rw [hs, hbefore] at ha
    cases ha
  rcases h.fades ht with hfades | hspeaks
  · exact hsame hfades.completed
  · cases h with
    | refused => exact hsame rfl
    | @message m =>
      cases m with
      | ack id =>
        by_cases hid : id = s.outputId
        · rw [hid]
        · refine hsame ?_
          unfold State.onMessage
          simp only [if_neg hid]
          split <;> rfl
      | _ => cases hspeaks
    | @prepared r posted =>
      obtain ⟨f, d, p, u, -, hs⟩ := s.prepared_eq r posted
      rw [hs] at hsame
      exact hsame rfl
    | @connected r ok =>
      cases ok
      · exact hsame (Fades.unwind s r).completed
      · exact hsame rfl
    | @resized r ok =>
      obtain ⟨f, d, p, w, -, hs⟩ := s.resized_eq r ok
      rw [hs] at hsame
      exact hsame rfl
    | @read r i bytes posted =>
      have houtput (bytes : List UInt8) (hc : (s.output i bytes).completed a = true) : False := by
        simp only [State.output, State.record] at hc
        by_cases haa : a = s.acknowledgements
        · simp only [haa, update_self, Bool.false_eq_true] at hc
        · rw [update_of_ne haa, hbefore] at hc
          cases hc
      unfold State.read at ha
      split at ha
      · exact hsame (Fades.unwind s r).completed
      · exact hsame (Fades.unwind s r).completed
      · rename_i bytes _
        split at ha
        · exact (houtput bytes ha).elim
        · exact (houtput bytes ((Fades.unwind _ r).completed ▸ ha)).elim
    | @waited r b late hr =>
      obtain ⟨f, d, p, -, hs⟩ := s.waited_eq hr late
      rw [hs] at hsame
      exact hsame rfl
    | writerFails _ he => rcases he with rfl | rfl <;> cases hspeaks
    | _ => cases hspeaks

theorem mapM_fromBase64String (parts : List (List UInt8)) :
    (parts.map toBase64String).mapM fromBase64String = some parts := by
  induction parts with
  | nil => rfl
  | cons bytes parts ih => simp only [List.map_cons, List.mapM_cons, fromBase64String_toBase64String, ih]; rfl

/-- In a session, an output is posted when the one before has been acknowledged, so one waits
    at most; a wait is released by the id of the output it is for, which an earlier output
    has only if 2^32 outputs lie between; what is posted is what was read. -/
theorem outputs_wait_for_acknowledgement (h : window.Reach s) :
    (∀ i, Alternates (Happening.posts i) Happening.acknowledges s.history) ∧
      (∀ i id id', Waiting i s.history id → Waiting i s.history id' → id = id') ∧
      (∀ r a e s', s.phase r = .acknowledging a → s.completed a = false → step s e = some s' → s'.completed a = true →
        e = .message (.ack s.outputId) ∧ (∃ i, s.session = some i ∧ Latest i s.outputId s.history) ∧
        ∀ A j data B, s.history = A ++ .output j s.outputId data :: B → outputs B = [] ∨ 2 ^ 32 ≤ (outputs B).length) ∧
      ∀ i, (payloads i s.history).mapM fromBase64String = some (reads i s.history) := by
  have hinv := inv_of_reach h
  have hacks := acks_of_reach h
  refine ⟨hacks.history.alternates, ?_, ?_, ?_⟩
  · intro i id id' hw hw'
    exact (hacks.history.alternates i).eq_of_unanswered hw hw'
  · intro r a e s' hr hbefore hs ha
    obtain ⟨-, i, hi, -, -, hlatest⟩ := hacks.waits.waiting r a hr
    exact ⟨(step_change hs).completes hinv.turns ha hbefore, ⟨i, hi, hlatest⟩, fun A j data B e => hacks.history.eq_latest e⟩
  · intro i
    rw [hacks.history.payloads i, mapM_fromBase64String]

/-- A first session ends with its output unacknowledged, and a second one begins. -/
def left : List Event :=
  [.reconnect, .stopReturns 0, .restart 0, .message (.ready 80 24), .initialized true, .prepared 0 true,
    .connected 0 true, .resized 0 true, .read 0 (some [65]) true, .disconnect, .waited 0 false, .disposed 0,
    .writerStops 0, .joined 0, .stopReturns 1, .reconnect, .stopReturns 2, .restart 2, .prepared 1 true,
    .connected 1 true, .resized 1 true]

theorem first_output_waits : ∃ s, window.Reach s ∧ Waiting 0 s.history 1 ∧ (∀ id, Waiting 0 s.history id → id = 1) ∧
    (payloads 0 s.history).mapM fromBase64String = some [[65]] := by
  obtain ⟨log, s, hr, -, hp⟩ := Machine.exists_run window (fun _ _ => True)
    (fun s => s.history = [.reset, .read 0 [65], .output 0 1 (toBase64String [65]), .reset]) left rfl (by decide +kernel)
  have hhistory : s.history = [.reset, .read 0 [65], .output 0 1 (toBase64String [65]), .reset] := of_decide_eq_true hp
  obtain ⟨-, hone, -, hpayloads⟩ := outputs_wait_for_acknowledgement ⟨log, hr⟩
  have hwaits : Waiting 0 s.history 1 := by
    refine ⟨[.reset, .read 0 [65]], .output 0 1 (toBase64String [65]), [.reset], hhistory, rfl, fun y hy => ?_⟩
    rw [List.mem_singleton.mp hy]
    nofun
  refine ⟨s, ⟨log, hr⟩, hwaits, fun id hid => hone 0 id 1 hid hwaits, ?_⟩
  rw [hpayloads 0, hhistory]
  rfl

/-- The second session after `n` outputs of the window; the first posted the id 1. -/
structure Steady (n : Nat) (s : State) : Prop where
  reach : window.Reach s
  phase : s.phase 1 = .reading 1
  session : s.session = some 1
  cancelled : s.cancelled 1 = false
  outputId : s.outputId = Int32.ofNat n
  first : .output 0 1 (toBase64String [65]) ∈ s.history

theorem steady_left : ∃ s, Steady 1 s := by
  obtain ⟨log, s, hr, -, hp⟩ := Machine.exists_run window (fun _ _ => True)
    (fun s => s.phase 1 = .reading 1 && s.session = some 1 && !s.cancelled 1 && s.outputId = 1 &&
      decide (Happening.output 0 1 (toBase64String [65]) ∈ s.history)) left rfl (by decide +kernel)
  simp only [Bool.and_eq_true, decide_eq_true_eq, Bool.not_eq_true'] at hp
  obtain ⟨⟨⟨⟨hphase, hsession⟩, hcancelled⟩, hid⟩, hfirst⟩ := hp
  exact ⟨s, ⟨log, hr⟩, hphase, hsession, hcancelled, hid, hfirst⟩

/-- An output, and the state that waits for its acknowledgement. -/
theorem Steady.read {n : Nat} (h : Steady n s) :
    step s (.read 1 (some [65]) true) = some ((s.output 1 [65]).setPhase 1 (.acknowledging s.acknowledgements)) := by
  simp only [step, h.phase]
  rfl

theorem step_ack {a : Nat} (ha : s.acknowledgement = some a) {id : Int32} (hid : id = s.outputId) :
    step s (.message (.ack id)) =
      some { s.record (.acknowledged id) with completed := update s.completed a true } := by
  simp only [step, State.onMessage, ha, hid, if_true]

/-- One more output, acknowledged. -/
theorem Steady.next {n : Nat} (h : Steady n s) : ∃ s', Steady (n + 1) s' := by
  let t := (s.output 1 [65]).setPhase 1 (.acknowledging s.acknowledgements)
  have ht : window.Reach t := Machine.reach_step (.read 1 (some [65]) true) h.reach h.read
  let u : State := { t.record (.acknowledged t.outputId) with completed := update t.completed s.acknowledgements true }
  have hu : step t (.message (.ack t.outputId)) = some u := step_ack rfl rfl
  have hv : step u (.waited 1 false) = some (u.setPhase 1 (.reading 1)) := by
    have hphase : u.phase 1 = .acknowledging s.acknowledgements := (s.output 1 [65]).setPhase_self 1 _
    have hcancelled : u.cancelled 1 = false := h.cancelled
    have hcompleted : u.completed s.acknowledgements = true := update_self _ _ _
    have hsession : u.session = some 1 := h.session
    simp only [step, hphase, State.waited, hcancelled, hcompleted, State.startRead, hsession, Bool.or_self,
      Bool.false_eq_true, if_false, if_true]
  refine ⟨u.setPhase 1 (.reading 1), ?_, u.setPhase_self 1 _, h.session, h.cancelled, ?_, ?_⟩
  · exact Machine.reach_step (.waited 1 false) (Machine.reach_step (.message (.ack t.outputId)) ht hu) hv
  · rw [Int32.ofNat_add, ← h.outputId]
    rfl
  · exact List.mem_append_left _ (List.mem_append_left _ (List.mem_append_left _ h.first))

theorem exists_steady (n : Nat) : ∃ s, Steady (n + 1) s := by
  induction n with
  | zero => exact steady_left
  | succ n ih =>
    obtain ⟨s, hs⟩ := ih
    exact hs.next

/-- After 2^32 outputs, the acknowledgement that the first session has left releases a wait
    of the second. -/
theorem left_acknowledgement_releases :
    ¬ ∀ s s' r a id, window.Reach s → s.phase r = .acknowledging a → s.completed a = false →
      step s (.message (.ack id)) = some s' → s'.completed a = true →
      ∀ j data, .output j id data ∈ s.history → s.session = some j := by
  intro h
  obtain ⟨s, hs⟩ := exists_steady (2 ^ 32 - 1)
  let t := (s.output 1 [65]).setPhase 1 (.acknowledging s.acknowledgements)
  have hreach : window.Reach t := Machine.reach_step (.read 1 (some [65]) true) hs.reach hs.read
  have hid : t.outputId = 1 := by
    have hnext : t.outputId = s.outputId + 1 := rfl
    rw [hnext, hs.outputId]
    decide
  have hphase : t.phase 1 = .acknowledging s.acknowledgements := (s.output 1 [65]).setPhase_self 1 _
  have hbefore : t.completed s.acknowledgements = false := update_self _ _ _
  have hfirst : .output 0 1 (toBase64String [65]) ∈ t.history :=
    List.mem_append_left _ (List.mem_append_left _ hs.first)
  have hsession := h t _ 1 s.acknowledgements 1 hreach hphase hbefore (step_ack rfl hid.symm) (update_self _ _ _) 0 _ hfirst
  exact nomatch hs.session.symm.trans hsession

end MythLab.App.TerminalSessions
