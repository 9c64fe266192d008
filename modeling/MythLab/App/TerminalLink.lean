/-
  MythLab.App.TerminalLink — a terminal window together with the page in its browser.

  Two queues connect them, one each way, and keep the order of the messages; loading the
  page again loses what had not come to it. The window takes the page's messages here, and
  no others: its events are those of `App.TerminalSessions` without the messages, which
  stand in the page's queue.

  `Flight` is the invariant: the chunks whose acknowledgement has not come are among the
  last outputs of the window, and what the parsers were given of the acknowledged ones ends with
  what the open session has given. A run posts its next output when the one before is
  acknowledged, so each run leaves one at most; with fewer than 2^32 runs their ids differ,
  and the acknowledgement that releases a wait is that of the output it waits for.
-/
import Mathlib.Data.List.Nodup
import MythLab.App.RendererAcknowledgement
import MythLab.App.TerminalPage

namespace MythLab.App.TerminalLink

open Lib Dotnet Function TerminalPage
open TerminalSessions (Fades Change Turns Owns History Waits Acks Phase Happening active_of_stage)

structure State where
  window : TerminalSessions.State
  /-- What the window has posted and the page has not received, oldest first. -/
  toPage : List Posted
  page : Page
  clipboard : Str

/-- A new window: its browser has no page yet. -/
def shown : State := ⟨TerminalSessions.shown, [], blank, []⟩

inductive Event where
  /-- A step of the window that takes no message. -/
  | window (e : TerminalSessions.Event)
  /-- The page receives a message. -/
  | delivered (dimensions : Option (Int × Int)) (turn : Turn)
  /-- `OnMessage` receives one. -/
  | received
  | task (e : TerminalPage.Event)
  /-- The page is loaded; this many messages to it are lost. -/
  | loaded (lost : Nat) (dimensions : Option (Int × Int))
  deriving DecidableEq, Repr

/-- What the window posts to the browser. -/
def posted : Happening → Option Posted
  | .reset => some .reset
  | .output _ id data => some (.output id data)
  | .read _ _ | .acknowledged _ => none

/-- The browser takes what is posted in this step. -/
def taken : TerminalSessions.Event → Bool
  | .prepared _ posted | .read _ _ posted => posted
  | _ => true

/-- The browser takes what is read in this step. -/
def delivers : TerminalSessions.Event → Bool
  | .read _ _ posted => posted
  | _ => true

def isMessage : TerminalSessions.Event → Bool
  | .message _ => true
  | _ => false

/-- What a step of the window has posted. -/
def newlyPosted (w w' : TerminalSessions.State) : List Posted := (w'.history.drop w.history.length).filterMap posted

/-- The text of a message, as the browser hands it to the window. -/
abbrev WebMessageAsJson := Sent → Str

/-- `OnMessage`, for the messages of the page. `Paste` comes to its end in a step of its own. -/
def onMessage (json : WebMessageAsJson) (s : State) (m : Sent) : State :=
  if 65536 < (json m).length then s
  else
    match m with
    | .ready cols rows => { s with window := s.window.onMessage (.ready cols rows) }
    | .resize cols rows => { s with window := s.window.onMessage (.resize cols rows) }
    | .input data => { s with window := s.window.onMessage (.input data) }
    | .ack id => { s with window := s.window.onMessage (.ack id) }
    | .copy selection =>
      if 0 < selection.length ∧ selection.length ≤ 32768 then { s with clipboard := selection } else s
    | .paste => s

def step (json : WebMessageAsJson) (s : State) : Event → Option State
  | .window e =>
    if isMessage e then none
    else
      (TerminalSessions.step s.window e).map fun w =>
        { s with window := w, toPage := s.toPage ++ if taken e then newlyPosted s.window w else [] }
  | .delivered dimensions turn =>
    match s.toPage with
    | [] => none
    | m :: rest =>
      if s.page.loaded then some { s with toPage := rest, page := s.page.receive m dimensions turn } else none
  | .received =>
    match s.page.sent with
    | [] => none
    | m :: rest => some (onMessage json { s with page := { s.page with sent := rest } } m)
  | .task e => if s.page.loaded then (TerminalPage.step s.page e).map fun page => { s with page } else none
  | .loaded lost dimensions => some { s with toPage := s.toPage.drop lost, page := s.page.load dimensions }

def link (json : WebMessageAsJson) : Machine State Event := ⟨(· = shown), step json⟩

/-- The event, the guard it had and what it did. -/
inductive Transition (json : WebMessageAsJson) (s : State) : Event → State → Prop where
  | window {e : TerminalSessions.Event} {w : TerminalSessions.State} : isMessage e = false →
      TerminalSessions.step s.window e = some w → Transition json s (.window e)
        { s with window := w, toPage := s.toPage ++ if taken e then newlyPosted s.window w else [] }
  | delivered {m : Posted} {rest : List Posted} {dimensions : Option (Int × Int)} {turn : Turn} :
      s.toPage = m :: rest → s.page.loaded = true → Transition json s (.delivered dimensions turn)
        { s with toPage := rest, page := s.page.receive m dimensions turn }
  | received {m : Sent} {sent : List Sent} : s.page.sent = m :: sent →
      Transition json s .received (onMessage json { s with page := { s.page with sent } } m)
  | task {e : TerminalPage.Event} {page : Page} : s.page.loaded = true → TerminalPage.step s.page e = some page →
      Transition json s (.task e) { s with page }
  | loaded {lost : Nat} {dimensions : Option (Int × Int)} : Transition json s (.loaded lost dimensions)
      { s with toPage := s.toPage.drop lost, page := s.page.load dimensions }

theorem step_transition {json : WebMessageAsJson} {s s' : State} {e : Event} (h : step json s e = some s') :
    Transition json s e s' := by
  cases e with
  | window e =>
    simp only [step] at h
    split at h
    · cases h
    · rename_i hm
      obtain ⟨w, hw, rfl⟩ := Option.map_eq_some_iff.mp h
      exact .window (Bool.eq_false_iff.mpr hm) hw
  | delivered dimensions turn =>
    simp only [step] at h
    split at h
    · cases h
    · rename_i m rest hqueue
      obtain ⟨hloaded, rfl⟩ := Option.ite_some_none_eq_some.mp h
      exact .delivered hqueue hloaded
  | received =>
    simp only [step] at h
    split at h
    · cases h
    · rename_i m rest hsent
      cases h
      exact .received hsent
  | task e =>
    obtain ⟨hloaded, h⟩ := Option.ite_none_right_eq_some.mp h
    obtain ⟨page, hpage, rfl⟩ := Option.map_eq_some_iff.mp h
    exact .task hloaded hpage
  | loaded lost dimensions =>
    cases h
    exact .loaded

/-- A message reaches the window, and nothing else. -/
theorem onMessage_eq (json : WebMessageAsJson) (s : State) (m : Sent) : ∃ w clipboard,
    (w = s.window ∨ ∃ m', w = s.window.onMessage m') ∧ onMessage json s m = { s with window := w, clipboard } := by
  unfold onMessage
  split
  · exact ⟨_, _, Or.inl rfl, rfl⟩
  · cases m with
    | ready cols rows => exact ⟨_, _, Or.inr ⟨.ready cols rows, rfl⟩, rfl⟩
    | resize cols rows => exact ⟨_, _, Or.inr ⟨.resize cols rows, rfl⟩, rfl⟩
    | input data => exact ⟨_, _, Or.inr ⟨.input data, rfl⟩, rfl⟩
    | ack id => exact ⟨_, _, Or.inr ⟨.ack id, rfl⟩, rfl⟩
    | copy selection =>
      dsimp only
      split
      · exact ⟨_, _, Or.inl rfl, rfl⟩
      · exact ⟨_, _, Or.inl rfl, rfl⟩
    | paste => exact ⟨_, _, Or.inl rfl, rfl⟩

/-! ## The outputs -/

/-- An output, as the page decodes it, with its session. -/
def chunkFor : Happening → Option (Nat × Chunk)
  | .output i id data => (decode data).map fun bytes => (i, ⟨id, bytes⟩)
  | _ => none

/-- The outputs of the window, oldest first. -/
def chunksOut (h : List Happening) : List (Nat × Chunk) := h.filterMap chunkFor

/-- Those of a session. -/
def own (i : Nat) (l : List (Nat × Chunk)) : List Chunk := l.filterMap fun p => if p.1 = i then some p.2 else none

theorem own_append (i : Nat) (xs ys : List (Nat × Chunk)) : own i (xs ++ ys) = own i xs ++ own i ys :=
  List.filterMap_append

theorem own_singleton (i : Nat) (c : Chunk) : own i [(i, c)] = [c] := by simp [own]

theorem own_eq_nil {i : Nat} {l : List (Nat × Chunk)} : own i l = [] ↔ ∀ p ∈ l, p.1 ≠ i := by
  simp [own, List.filterMap_eq_nil_iff]

theorem chunksOut_append (g h : List Happening) : chunksOut (g ++ h) = chunksOut g ++ chunksOut h :=
  List.filterMap_append

theorem chunksOut_snoc {x : Happening} (hx : x.outputId = none) (h : List Happening) :
    chunksOut (h ++ [x]) = chunksOut h := by
  rw [chunksOut_append]
  cases x with
  | output => cases hx
  | read | reset | acknowledged => exact List.append_nil _

variable {w w' : TerminalSessions.State}

/-- A message posts nothing. -/
theorem chunksOut_onMessage (w : TerminalSessions.State) (m : TerminalSessions.Message) :
    chunksOut (w.onMessage m).history = chunksOut w.history := by
  obtain ⟨f, q, c, l, b, u, d, -, hs, ⟨rfl, -⟩ | ⟨id, rfl⟩⟩ := w.onMessage_eq m
  · rw [hs]
  · have hsame : (w.onMessage (.ack id)).history = w.history ++ [.acknowledged id] := by
      unfold TerminalSessions.State.onMessage
      dsimp only
      split
      · split <;> rfl
      · rfl
    rw [hsame]
    exact chunksOut_snoc rfl _

/-- What a session's outputs carry is what was read from it. -/
theorem own_chunksOut (h : History w) (i : Nat) :
    (own i (chunksOut w.history)).map Chunk.bytes = TerminalSessions.reads i w.history := by
  have hpayloads : (own i (chunksOut w.history)).map Chunk.bytes =
      (TerminalSessions.payloads i w.history).filterMap decode := by
    unfold own chunksOut TerminalSessions.payloads
    rw [List.filterMap_filterMap, List.map_filterMap, List.filterMap_filterMap]
    refine List.filterMap_congr ?_
    intro x _
    cases x with
    | output j id data =>
      simp only [chunkFor, Happening.payload]
      by_cases hj : j = i <;> cases hdata : decode data <;> simp [hj, hdata]
    | read | reset | acknowledged => rfl
  rw [hpayloads, h.payloads, List.filterMap_map]
  have hdecode : (decode ∘ toBase64String) = some := funext decode_toBase64String
  rw [hdecode, List.filterMap_some]

theorem decode_of_mem (h : History w) {i : Nat} {id : Int32} {data : Str} (hx : .output i id data ∈ w.history) :
    ∃ bytes ∈ TerminalSessions.reads i w.history, decode data = some bytes := by
  have hpayload : data ∈ TerminalSessions.payloads i w.history :=
    List.mem_filterMap.mpr ⟨_, hx, by simp [Happening.payload]⟩
  rw [h.payloads] at hpayload
  obtain ⟨bytes, hbytes, rfl⟩ := List.mem_map.mp hpayload
  exact ⟨bytes, hbytes, decode_toBase64String bytes⟩

theorem ids_chunksOut (h : History w) :
    (chunksOut w.history).map (fun p => p.2.id) = TerminalSessions.outputs w.history := by
  unfold chunksOut TerminalSessions.outputs
  rw [List.map_filterMap]
  refine List.filterMap_congr ?_
  intro x hx
  cases x with
  | output i id data =>
    obtain ⟨bytes, -, hdecode⟩ := decode_of_mem h hx
    simp [chunkFor, hdecode, Happening.outputId]
  | read | reset | acknowledged => rfl

/-- The ids of the last outputs differ, as long as they are no more than 2^32. -/
theorem ids_nodup (h : History w) {old new : List (Nat × Chunk)} (houts : chunksOut w.history = old ++ new)
    (hnew : new.length ≤ 2 ^ 32) : (new.map fun p => p.2.id).Nodup := by
  have hids : old.map (fun p => p.2.id) ++ new.map (fun p => p.2.id) =
      (List.range (old.length + new.length)).map fun n => Int32.ofNat (n + 1) := by
    have hlength : (TerminalSessions.outputs w.history).length = old.length + new.length := by
      rw [← ids_chunksOut h, houts, List.length_map, List.length_append]
    rw [← List.map_append, ← houts, ids_chunksOut h, h.numbered, hlength]
  have hlast : new.map (fun p => p.2.id) =
      (List.range new.length).map fun n => Int32.ofNat (old.length + n + 1) := by
    rw [List.range_add, List.map_append, List.map_map] at hids
    exact (List.append_inj hids (by simp)).2
  rw [hlast]
  refine List.Nodup.map_on ?_ List.nodup_range
  intro m hm n hn hmn
  rw [List.mem_range] at hm hn
  have hbits := congrArg (fun x : Int32 => x.toBitVec.toNat) hmn
  simp only [Int32.toBitVec_ofNat', BitVec.toNat_ofNat] at hbits
  omega

/-- The last output has the last id. -/
theorem id_last (h : History w) {old new : List (Nat × Chunk)} {p : Nat × Chunk}
    (houts : chunksOut w.history = old ++ (new ++ [p])) : p.2.id = w.outputId := by
  have hids : TerminalSessions.outputs w.history =
      (old ++ new).map (fun p => p.2.id) ++ [p.2.id] := by
    rw [← ids_chunksOut h, houts]
    simp
  have hlength : (TerminalSessions.outputs w.history).length = (old ++ new).length + 1 := by
    rw [hids, List.length_append, List.length_map, List.length_singleton]
  have hnumbered := h.numbered
  rw [hlength, List.range_succ, List.map_append, hids] at hnumbered
  have hlast := (List.append_inj' hnumbered rfl).2
  rw [h.latest, hlength]
  exact List.singleton_inj.mp hlast

/-- A list that starts with the last element of one without repetitions, and keeps its order. -/
theorem rest_eq_nil {α : Type} {x : α} {rest before : List α} (hnodup : (before ++ [x]).Nodup)
    (h : (x :: rest).Sublist (before ++ [x])) : rest = [] := by
  have hx : x ∉ before := fun hx => (List.nodup_append.mp hnodup).2.2 x hx x (List.mem_singleton_self x) rfl
  obtain ⟨xs, ys, hsplit, hxs, hys⟩ := List.sublist_append_iff.mp h
  cases xs with
  | nil =>
    rw [List.nil_append] at hsplit
    subst hsplit
    exact List.sublist_nil.mp (List.Sublist.of_cons_cons hys)
  | cons y ys' =>
    cases hsplit
    exact absurd (hxs.subset List.mem_cons_self) hx

/-! ## The chunks in flight -/

/-- The run may post an output without another acknowledgement. -/
def Open (w : TerminalSessions.State) (r : Nat) : Prop :=
  match w.phase r with
  | .initializing | .connecting | .resizing | .reading _ => True
  | .acknowledging a => w.completed a = true
  | .disposing | .joining | .ended => False

theorem open_congr {r : Nat} (hphase : w'.phase r = w.phase r) (hcompleted : w'.completed = w.completed) :
    Open w' r ↔ Open w r := by
  simp only [Open, hphase, hcompleted]

/-- A run goes to a phase in which it posts nothing more. -/
theorem open_of_update {r r' : Nat} {p : Phase} (hp : p = .disposing ∨ p = .joining ∨ p = .ended)
    (hphase : w'.phase = update w.phase r p) (hcompleted : w'.completed = w.completed) (h : Open w' r') :
    Open w r' := by
  by_cases hr : r' = r
  · have hphase' : w'.phase r' = p := by rw [hphase, hr, update_self]
    unfold Open at h
    rw [hphase'] at h
    rcases hp with rfl | rfl | rfl <;> exact h.elim
  · exact (open_congr ((congrFun hphase r').trans (update_of_ne hr _ _)) hcompleted).mp h

theorem open_of_unwind {r r' : Nat} (h : Open (w.unwind r) r') : Open w r' := by
  obtain ⟨f, d, p, hp, -, hs⟩ := w.unwind_eq r
  have hphase : (w.unwind r).phase = update w.phase r p := by rw [hs]
  have hcompleted : (w.unwind r).completed = w.completed := by rw [hs]
  exact open_of_update hp hphase hcompleted h

/-- No run starts, and none comes nearer to an output. -/
def Opens (w w' : TerminalSessions.State) : Prop :=
  w'.runs = w.runs ∧ (∀ r, Open w' r → Open w r) ∨ w'.runs = w.runs + 1

theorem Opens.of_same (hruns : w'.runs = w.runs) (hphase : w'.phase = w.phase)
    (hcompleted : w'.completed = w.completed) : Opens w w' :=
  Or.inl ⟨hruns, fun r => (open_congr (congrFun hphase r) hcompleted).mp⟩

/-- `done` has been acknowledged, `flying` has not. -/
structure Flight (w : TerminalSessions.State) (done flying : List Chunk) (old new : List (Nat × Chunk)) : Prop where
  outputs : chunksOut w.history = old ++ new
  last : flying.Sublist (new.map Prod.snd)
  order : (done ++ flying).Sublist ((old ++ new).map Prod.snd)
  runs : new.length ≤ w.runs
  opens : ∀ r, Open w r → new.length < w.runs
  shown : ∀ r i, (w.phase r).stage = .held → w.session = some i → ∃ before, done = before ++ own i old
  ready : ∀ r i, (w.phase r).stage = .held → w.session = some i → Open w r →
    own i new = [] ∧ (own i old ≠ [] → new = [])
  waits : ∀ r i, (w.phase r).stage = .held → w.session = some i → ¬ Open w r →
    ∃ others c, new = others ++ [(i, c)] ∧ own i others = [] ∧ (own i old ≠ [] → others = [])

namespace Flight

variable {done flying rest : List Chunk} {old new : List (Nat × Chunk)} {c : Chunk}

theorem shown_empty : Flight TerminalSessions.shown [] [] [] [] where
  outputs := rfl
  last := .slnil
  order := .slnil
  runs := Nat.le_refl _
  opens _ h := h.elim
  shown _ _ h := nomatch h
  ready _ _ h := nomatch h
  waits _ _ h := nomatch h

/-- Chunks are lost. -/
theorem lose (h : Flight w done flying old new) (hrest : rest.Sublist flying) : Flight w done rest old new :=
  { h with
    last := hrest.trans h.last
    order := (hrest.append_left done).trans h.order }

/-- A step in which nothing is posted or acknowledged. -/
theorem fades (h : Flight w done flying old new) (hf : Fades w w') (hopens : Opens w w') :
    Flight w' done flying old new := by
  have hopen {r : Nat} (hheld : (w'.phase r).stage = .held) : Open w' r ↔ Open w r := by
    simp only [Open, (hf.held r hheld).1, hf.completed]
  have hstage {r : Nat} (hheld : (w'.phase r).stage = .held) : (w.phase r).stage = .held := by
    rw [← (hf.held r hheld).1, hheld]
  have hsession {r i : Nat} (hheld : (w'.phase r).stage = .held) (hi : w'.session = some i) : w.session = some i := by
    rw [← (hf.held r hheld).2, hi]
  refine ⟨hf.history ▸ h.outputs, h.last, h.order, ?_, ?_, ?_, ?_, ?_⟩
  · have hbefore := h.runs
    rcases hopens with ⟨hruns, -⟩ | hruns <;> omega
  · intro r hr
    rcases hopens with ⟨hruns, hopens⟩ | hruns
    · rw [hruns]
      exact h.opens r (hopens r hr)
    · have hbefore := h.runs
      omega
  · exact fun r i hheld hi => h.shown r i (hstage hheld) (hsession hheld hi)
  · exact fun r i hheld hi hr => h.ready r i (hstage hheld) (hsession hheld hi) ((hopen hheld).mp hr)
  · exact fun r i hheld hi hr => h.waits r i (hstage hheld) (hsession hheld hi) fun ho => hr ((hopen hheld).mpr ho)

/-- Something passes that is no output. -/
theorem record (h : Flight w done flying old new) {x : Happening} (hx : x.outputId = none) :
    Flight (w.record x) done flying old new := by
  refine { h with outputs := ?_ }
  rw [← h.outputs]
  exact chunksOut_snoc hx w.history

end Flight

/-! ## The steps of the window -/

/-- Where nothing passes, a run that may post an output could do so before, or is new. -/
theorem opens_of_change {e : TerminalSessions.Event} (hc : Change w e w') (hspeaks : e.speaks = false) :
    Opens w w' := by
  obtain ⟨f, -, hf⟩ := w.cancel_eq
  cases hc with
  | refused => exact .of_same rfl rfl rfl
  | reconnect | disconnect | close =>
    unfold TerminalSessions.State.beginStop
    rw [hf]
    exact .of_same rfl rfl rfl
  | stopReturns | closed | initialized | writerTakes | writerReturns => exact .of_same rfl rfl rfl
  | restart =>
    unfold TerminalSessions.State.restart
    split
    · exact .of_same rfl rfl rfl
    · exact Or.inr rfl
  | rendererFails | writerFails =>
    simp only [TerminalSessions.State.writerFails, hf]
    exact .of_same rfl rfl rfl
  | @message m =>
    obtain ⟨f, q, c, l, b, u, d, -, hs, ⟨-, hcompleted⟩ | ⟨id, rfl⟩⟩ := w.onMessage_eq m
    · rw [hs]
      exact .of_same rfl rfl hcompleted
    · cases hspeaks
  | @paste text allowed =>
    obtain ⟨f, q, -, hs⟩ := w.paste_eq text allowed
    rw [hs]
    exact .of_same rfl rfl rfl
  | @disposed r =>
    have hp : (if w.writer r = none then Phase.ended else Phase.joining) = .disposing ∨
        (if w.writer r = none then Phase.ended else Phase.joining) = .joining ∨
        (if w.writer r = none then Phase.ended else Phase.joining) = .ended := by
      split <;> simp
    have hopen : ∀ r', Open (w.disposed r) r' → Open w r' := fun _ => open_of_update hp rfl rfl
    exact Or.inl ⟨rfl, hopen⟩
  | @joined r =>
    have hopen : ∀ r', Open (w.setPhase r .ended) r' → Open w r' :=
      fun _ => open_of_update (Or.inr (Or.inr rfl)) rfl rfl
    exact Or.inl ⟨rfl, hopen⟩
  | _ => cases hspeaks

namespace Flight

variable {done flying rest : List Chunk} {old new : List (Nat × Chunk)} {c : Chunk} {r i : Nat}

theorem unwind (h : Flight w done flying old new) (r : Nat) : Flight (w.unwind r) done flying old new := by
  obtain ⟨f, d, p, -, -, hs⟩ := w.unwind_eq r
  have hruns : (w.unwind r).runs = w.runs := by rw [hs]
  exact h.fades (.unwind w r) (Or.inl ⟨hruns, fun _ => open_of_unwind⟩)

/-- A run goes on to another phase in which it may post. -/
theorem setPhase (h : Flight w done flying old new) {p : Phase} (hr : Open w r) (hp : Open (w.setPhase r p) r)
    (hheld : p.stage = .held → (w.phase r).stage = .held) : Flight (w.setPhase r p) done flying old new := by
  have hself : (w.setPhase r p).phase r = p := w.setPhase_self r p
  have hother {r' : Nat} (hne : r' ≠ r) : (w.setPhase r p).phase r' = w.phase r' := update_of_ne hne _ _
  have hopen (r' : Nat) : Open (w.setPhase r p) r' ↔ Open w r' := by
    by_cases hne : r' = r
    · rw [hne]
      exact ⟨fun _ => hr, fun _ => hp⟩
    · exact open_congr (hother hne) rfl
  have hstage {r' : Nat} (hr' : ((w.setPhase r p).phase r').stage = .held) : (w.phase r').stage = .held := by
    by_cases hne : r' = r
    · rw [hne, hself] at hr'
      rw [hne]
      exact hheld hr'
    · rwa [hother hne] at hr'
  refine ⟨h.outputs, h.last, h.order, h.runs, ?_, ?_, ?_, ?_⟩
  · exact fun r' hr' => h.opens r' ((hopen r').mp hr')
  · exact fun r' j hr' hj => h.shown r' j (hstage hr') hj
  · exact fun r' j hr' hj ho => h.ready r' j (hstage hr') hj ((hopen r').mp ho)
  · exact fun r' j hr' hj ho => h.waits r' j (hstage hr') hj fun ho' => ho ((hopen r').mpr ho')

theorem startRead (h : Flight w done flying old new) (hr : (w.phase r).stage = .held) (ho : Open w r) :
    Flight (w.startRead r) done flying old new := by
  unfold TerminalSessions.State.startRead
  split
  · exact h.unwind r
  · rename_i j hj
    refine h.setPhase ho ?_ fun _ => hr
    unfold Open
    rw [w.setPhase_self]
    trivial

/-- A session is opened: no output is for it. -/
theorem connected (h : Flight w done flying old new) (hh : History w) (ht : Turns w) (hr : w.phase r = .connecting)
    (ok : Bool) : Flight (w.connected r ok) done flying old new := by
  cases ok
  · exact h.unwind r
  · have hfresh : own w.sessions (old ++ new) = [] := by
      rw [own_eq_nil, ← h.outputs]
      intro p hp hsession
      obtain ⟨x, hx, hfor⟩ := List.mem_filterMap.mp hp
      cases x with
      | output j id data =>
        obtain ⟨bytes, -, rfl⟩ := Option.map_eq_some_iff.mp hfor
        have hknown := hh.known j _ hx (by simp [Happening.posts])
        exact absurd hsession (Nat.ne_of_lt hknown)
      | read | reset | acknowledged => cases hfor
    rw [own_append, List.append_eq_nil_iff] at hfresh
    have hself : (w.connected r true).phase r = .resizing := update_self ..
    have hother {r' : Nat} (hne : r' ≠ r) : (w.connected r true).phase r' = w.phase r' := update_of_ne hne _ _
    have hopen {r' : Nat} (hr' : Open (w.connected r true) r') : Open w r' := by
      by_cases hne : r' = r
      · rw [hne, Open, hr]
        trivial
      · exact (open_congr (hother hne) rfl).mp hr'
    -- No other run is active.
    have hrun {r' : Nat} (hr' : ((w.connected r true).phase r').stage = .held) : r' = r := by
      by_contra hne
      rw [hother hne] at hr'
      refine hne (ht.eq_of_active (active_of_stage (by simp [hr'])) ?_)
      simp [hr]
    refine ⟨h.outputs, h.last, h.order, h.runs, fun r' hr' => h.opens r' (hopen hr'), ?_, ?_, ?_⟩
    · intro r' j _ hj
      cases hj
      exact ⟨done, by rw [hfresh.1, List.append_nil]⟩
    · intro r' j _ hj _
      cases hj
      exact ⟨hfresh.2, fun hne => absurd hfresh.1 hne⟩
    · intro r' j hr' _ ho
      rw [hrun hr', Open, hself] at ho
      exact absurd trivial ho

/-- The open session's next output: the one before was acknowledged. -/
theorem output (h : Flight w done flying old new) (hr : w.phase r = .reading i) (hi : w.session = some i)
    {id : Int32} {bytes : List UInt8}
    (hhistory : w'.history = w.history ++ [.read i bytes] ++ [.output i id (toBase64String bytes)])
    (hruns : w'.runs = w.runs) (hclosed : ∀ r', ¬ Open w' r')
    (hheld : ∀ r', (w'.phase r').stage = .held → w'.session = some i)
    (hrest : rest.Sublist (flying ++ [⟨id, bytes⟩])) : Flight w' done rest old (new ++ [(i, ⟨id, bytes⟩)]) := by
  have hstage : (w.phase r).stage = .held := by rw [hr]; rfl
  have hopen : Open w r := by rw [Open, hr]; trivial
  obtain ⟨hnone, hempty⟩ := h.ready r i hstage hi hopen
  have hchunk : chunkFor (.output i id (toBase64String bytes)) = some (i, ⟨id, bytes⟩) := by
    simp [chunkFor, decode_toBase64String]
  refine ⟨?_, ?_, ?_, ?_, fun r' hr' => absurd hr' (hclosed r'), ?_, fun r' j _ _ ho => absurd ho (hclosed r'), ?_⟩
  · rw [hhistory, chunksOut_append, chunksOut_snoc rfl, h.outputs, List.append_assoc]
    simp [chunksOut, hchunk]
  · rw [List.map_append]
    exact hrest.trans (h.last.append_right _)
  · rw [← List.append_assoc, List.map_append]
    refine (hrest.append_left done).trans ?_
    rw [← List.append_assoc]
    exact h.order.append_right _
  · rw [hruns, List.length_append]
    exact h.opens r hopen
  · intro r' j hr' hj
    cases (hheld r' hr').symm.trans hj
    exact h.shown r i hstage hi
  · intro r' j hr' hj _
    cases (hheld r' hr').symm.trans hj
    exact ⟨new, _, rfl, hnone, hempty⟩

end Flight

theorem not_open_of_ended {r : Nat} (h : w.phase r = .ended) : ¬ Open w r := by
  rw [Open, h]
  exact id

theorem newlyPosted_append {xs : List Happening} (h : w'.history = w.history ++ xs) :
    newlyPosted w w' = xs.filterMap posted := by
  rw [newlyPosted, h, List.drop_left]

/-- Only an output brings a chunk. -/
theorem newlyPosted_none {xs : List Happening} (h : w'.history = w.history ++ xs) (hxs : ∀ x ∈ xs, x.outputId = none)
    (b : Bool) : (if b then newlyPosted w w' else []).filterMap Posted.chunk? = [] := by
  cases b
  · rfl
  · rw [if_pos rfl, newlyPosted_append h, List.filterMap_filterMap, List.filterMap_eq_nil_iff]
    intro x hx
    cases x with
    | output => cases hxs _ hx
    | read | reset | acknowledged => rfl

/-- The chunks that a step of the window adds. -/
def added (e : TerminalSessions.Event) (w w' : TerminalSessions.State) : List Chunk :=
  (if taken e then newlyPosted w w' else []).filterMap Posted.chunk?

/-- A step of the window adds outputs to those in flight; the browser may lose what is read. -/
def Posts (e : TerminalSessions.Event) (w w' : TerminalSessions.State) (done flying : List Chunk)
    (old new : List (Nat × Chunk)) : Prop :=
  ∃ extra, Flight w' done (flying ++ added e w w') old (new ++ extra) ∧
    (delivers e = true → added e w w' = extra.map Prod.snd)

theorem Posts.none {done flying : List Chunk} {old new : List (Nat × Chunk)} {e : TerminalSessions.Event}
    {xs : List Happening} (hw : w'.history = w.history ++ xs)
    (hxs : ∀ x ∈ xs, x.outputId = none)
    (h : Flight w' done flying old new) : Posts e w w' done flying old new := by
  have hadded : added e w w' = [] := newlyPosted_none hw hxs _
  refine ⟨[], ?_, fun _ => hadded⟩
  rw [hadded, List.append_nil, List.append_nil]
  exact h

theorem Posts.still {done flying : List Chunk} {old new : List (Nat × Chunk)} {e : TerminalSessions.Event}
    (hw : w'.history = w.history) (h : Flight w' done flying old new) : Posts e w w' done flying old new :=
  .none (hw.trans (List.append_nil _).symm) (List.forall_mem_nil _) h

namespace Flight

variable {done flying : List Chunk} {old new : List (Nat × Chunk)} {r i : Nat}

theorem read (h : Flight w done flying old new) (hinv : TerminalSessions.Inv w) (hr : w.phase r = .reading i)
    (bytes : Option (List UInt8)) (posted : Bool) :
    Posts (.read r bytes posted) w (w.read r i bytes posted) done flying old new := by
  have hactive : w.phase r ≠ .ended := by simp [hr]
  have hi : w.session = some i := hinv.owns.reading r i hr
  have hended {r' : Nat} (hne : r' ≠ r) : w.phase r' = .ended := by
    by_contra hr'
    exact hne (hinv.turns.eq_of_active hr' hactive)
  have hquiet : Posts (.read r bytes posted) w (w.unwind r) done flying old new :=
    .still (Fades.unwind w r).history (h.unwind r)
  unfold TerminalSessions.State.read
  split
  · exact hquiet
  · exact hquiet
  · rename_i bytes _
    let c : Chunk := ⟨w.outputId + 1, bytes⟩
    have hout : (w.output i bytes).history =
        w.history ++ [.read i bytes] ++ [.output i (w.outputId + 1) (toBase64String bytes)] := rfl
    cases posted with
    | true =>
      -- It waits for the acknowledgement.
      rw [if_pos rfl]
      let w' := (w.output i bytes).setPhase r (.acknowledging w.acknowledgements)
      have hadded : added (.read r (some bytes) true) w w' = [c] := by
        have hhistory : w'.history = w.history ++
            ([.read i bytes] ++ [.output i (w.outputId + 1) (toBase64String bytes)]) :=
          hout.trans (List.append_assoc _ _ _)
        have hchunk : (Posted.output (w.outputId + 1) (toBase64String bytes)).chunk? = some c := by
          simp [Posted.chunk?, decode_toBase64String, c]
        rw [added, taken, if_pos rfl, newlyPosted_append hhistory, List.filterMap_filterMap]
        simp [TerminalLink.posted, hchunk]
      have hclosed (r' : Nat) : ¬ Open w' r' := by
        by_cases hne : r' = r
        · have hself : w'.phase r' = .acknowledging w.acknowledgements := hne ▸ (w.output i bytes).setPhase_self r _
          rw [Open, hself]
          have hnot : w'.completed w.acknowledgements = false := update_self ..
          simp [hnot]
        · exact not_open_of_ended ((update_of_ne hne _ _).trans (hended hne))
      refine ⟨[(i, c)], h.output hr hi hout rfl hclosed (fun _ _ => hi) ?_, fun _ => hadded⟩
      rw [hadded]
    | false =>
      let w' := (w.output i bytes).unwind r
      have hhistory : w'.history = (w.output i bytes).history := (Fades.unwind _ r).history
      have hruns : w'.runs = w.runs := by
        obtain ⟨f, d, p, -, -, hs⟩ := (w.output i bytes).unwind_eq r
        show ((w.output i bytes).unwind r).runs = w.runs
        rw [hs]
        rfl
      have hturns : Turns (w.output i bytes) := { hinv.turns with }
      have hclosed (r' : Nat) : ¬ Open w' r' := by
        by_cases hne : r' = r
        · obtain ⟨f, d, p, hp, -, hs⟩ := (w.output i bytes).unwind_eq r
          show ¬ Open ((w.output i bytes).unwind r) r'
          rw [hs, Open]
          simp only [hne, update_self]
          rcases hp with rfl | rfl | rfl <;> exact id
        · intro ho
          have hbefore : Open (w.output i bytes) r' := open_of_unwind ho
          have hended' : (w.output i bytes).phase r' = .ended := hended hne
          exact not_open_of_ended hended' hbefore
      refine ⟨[(i, c)], h.output hr hi (hhistory.trans hout) hruns hclosed (fun r' hr' => ?_) ?_, by simp [delivers]⟩
      · exact absurd hr' (hturns.unwind_stage hactive r')
      · exact (List.append_nil flying).symm ▸ List.sublist_append_left flying [c]

/-- A step of the window that takes no message. -/
theorem window_step {e : TerminalSessions.Event} (h : Flight w done flying old new) (hinv : TerminalSessions.Inv w)
    (hacks : Acks w) (hc : Change w e w') (hm : isMessage e = false) :
    Posts e w w' done flying old new := by
  have hunwind (r : Nat) : (w.unwind r).history = w.history := (Fades.unwind w r).history
  by_cases hspeaks : e.speaks = true
  · cases hc with
    | refused => exact Posts.still rfl h
    | message => cases hm
    | @prepared r posted hr =>
      have hopen : Open w r := by rw [Open, hr]; trivial
      unfold TerminalSessions.State.prepared
      split
      · exact Posts.still (hunwind r) (h.unwind r)
      · have hrecord : Flight (w.record .reset) done flying old new := h.record rfl
        have hreset : ∀ x ∈ [Happening.reset], x.outputId = none := fun x hx => by rw [List.mem_singleton.mp hx]; rfl
        split
        · refine Posts.none rfl hreset (hrecord.setPhase hopen ?_ fun hheld => (by cases hheld))
          rw [Open, TerminalSessions.State.setPhase_self]
          trivial
        · exact Posts.none (Fades.unwind _ r).history hreset (hrecord.unwind r)
    | @connected r ok hr =>
      have hhistory : (w.connected r ok).history = w.history := by
        cases ok
        · exact hunwind r
        · rfl
      exact Posts.still hhistory (h.connected hacks.history hinv.turns hr ok)
    | @resized r ok hr =>
      unfold TerminalSessions.State.resized
      split
      · rename_i i c _ _
        let v : TerminalSessions.State := { w with writer := update w.writer r (some ⟨i, c, .idle⟩) }
        have hflight : Flight v done flying old new := { h with }
        have hstage : (v.phase r).stage = .held := by
          show (w.phase r).stage = .held
          rw [hr]
          rfl
        have hopen : Open v r := by
          show Open w r
          rw [Open, hr]
          trivial
        obtain ⟨f, d, p, -, hs⟩ := v.startRead_eq r
        have hhistory : (v.startRead r).history = w.history := by rw [hs]
        exact Posts.still hhistory (hflight.startRead hstage hopen)
      · exact Posts.still (hunwind r) (h.unwind r)
    | @read r i bytes posted hr => exact h.read hinv hr bytes posted
    | @waited r a late hr =>
      obtain ⟨f, d, p, -, hs⟩ := w.waited_eq hr late
      have hhistory : (w.waited r a late).history = w.history := by rw [hs]
      refine Posts.still hhistory ?_
      unfold TerminalSessions.State.waited
      split
      · exact h.unwind r
      · split
        · rename_i hcompleted
          refine h.startRead (by rw [hr]; rfl) ?_
          rw [Open, hr]
          exact hcompleted
        · exact h
    | writerFails _ he => rcases he with rfl | rfl <;> cases hspeaks
    | _ => cases hspeaks
  · rcases hc.fades hinv.turns with hfades | hyes
    · exact Posts.still hfades.history (h.fades hfades (opens_of_change hc (Bool.eq_false_iff.mpr hspeaks)))
    · exact absurd hyes hspeaks

/-! ## The acknowledgements -/

variable {rest : List Chunk} {c : Chunk}

/-- An output in flight that is not the last one: the open session has had no acknowledgement. -/
theorem foreign (h : Flight w done (c :: rest) old new) (hh : History w) (hid : c.id ≠ w.outputId)
    (hr : (w.phase r).stage = .held) (hi : w.session = some i) : own i old = [] := by
  by_contra hold
  have hlast := h.last
  by_cases ho : Open w r
  · rw [(h.ready r i hr hi ho).2 hold] at hlast
    exact absurd (List.sublist_nil.mp hlast) (by simp)
  · obtain ⟨others, c', rfl, -, hothers⟩ := h.waits r i hr hi ho
    rw [hothers hold] at hlast
    have hc : c = c' := List.mem_singleton.mp (hlast.subset List.mem_cons_self)
    exact absurd (hc ▸ id_last hh h.outputs) hid

/-- The acknowledgement of an output that is not the last one. -/
theorem stale (h : Flight w done (c :: rest) old new) (hh : History w) (hid : c.id ≠ w.outputId) :
    Flight w (done ++ [c]) rest old new := by
  refine { h with last := ?_, order := ?_, shown := ?_ }
  · exact (List.sublist_cons_self c rest).trans h.last
  · rw [List.append_assoc]
    exact h.order
  · exact fun r i hr hi => ⟨done ++ [c], by rw [h.foreign hh hid hr hi, List.append_nil]⟩

/-- The same, where the output is the first in flight. -/
theorem stale_first {p : Nat × Chunk} (h : Flight w done (p.2 :: rest) old (p :: new)) (hh : History w)
    (hid : p.2.id ≠ w.outputId) (hrest : rest = new.map Prod.snd) : Flight w (done ++ [p.2]) rest (old ++ [p]) new := by
  have hsplit : old ++ p :: new = old ++ [p] ++ new := by simp
  have hruns := h.runs
  rw [List.length_cons] at hruns
  -- The first output is not the last one.
  have hmore {i : Nat} {others : List (Nat × Chunk)} {c : Chunk} (hnew : p :: new = others ++ [(i, c)]) :
      ∃ others', others = p :: others' ∧ new = others' ++ [(i, c)] := by
    cases others with
    | nil =>
      have hone : new = [] := (List.cons.inj hnew).2
      have houts : chunksOut w.history = old ++ ([] ++ [p]) := by
        rw [h.outputs, hone]
        rfl
      exact absurd (id_last hh houts) hid
    | cons q others =>
      obtain ⟨hq, hnew'⟩ := List.cons.inj (hnew.trans List.cons_append)
      exact ⟨others, by rw [hq], hnew'⟩
  have hfirst {r i : Nat} (hr : (w.phase r).stage = .held) (hi : w.session = some i) : own i (old ++ [p]) = [] := by
    rw [own_append, h.foreign hh hid hr hi, List.nil_append, own_eq_nil]
    intro q hq
    rw [List.mem_singleton.mp hq]
    by_cases ho : Open w r
    · exact own_eq_nil.mp (h.ready r i hr hi ho).1 p List.mem_cons_self
    · obtain ⟨others, c', hnew, hothers, -⟩ := h.waits r i hr hi ho
      obtain ⟨others', rfl, -⟩ := hmore hnew
      exact own_eq_nil.mp hothers p List.mem_cons_self
  refine ⟨h.outputs.trans hsplit, ?_, ?_, Nat.le_of_succ_le hruns, fun r hr => ?_, ?_, ?_, ?_⟩
  · rw [hrest]
  · rw [← hsplit, List.append_assoc]
    exact h.order
  · exact Nat.lt_of_succ_lt (h.opens r hr)
  · exact fun r i hr hi => ⟨done ++ [p.2], by rw [hfirst hr hi, List.append_nil]⟩
  · intro r i hr hi ho
    obtain ⟨hnone, -⟩ := h.ready r i hr hi ho
    rw [own_eq_nil] at hnone
    exact ⟨own_eq_nil.mpr fun q hq => hnone q (List.mem_cons_of_mem p hq), fun hne => absurd (hfirst hr hi) hne⟩
  · intro r i hr hi ho
    obtain ⟨others, c', hnew, hothers, -⟩ := h.waits r i hr hi ho
    obtain ⟨others', rfl, hnew'⟩ := hmore hnew
    rw [own_eq_nil] at hothers
    exact ⟨others', c', hnew', own_eq_nil.mpr fun q hq => hothers q (List.mem_cons_of_mem p hq),
      fun hne => absurd (hfirst hr hi) hne⟩

/-- The acknowledgement of the last output: it is the only one in flight. -/
theorem release (h : Flight w done (c :: rest) old new) (hh : History w) (hid : c.id = w.outputId)
    (hruns : w.runs ≤ 2 ^ 32) (houtputs : chunksOut w'.history = chunksOut w.history) (hsame : w'.runs = w.runs)
    (hphase : w'.phase = w.phase) (hsession : w'.session = w.session)
    (hcompleted : ∀ r a, w.phase r = .acknowledging a → w'.completed a = true) :
    rest = [] ∧ Flight w' (done ++ [c]) [] (old ++ new) [] := by
  obtain ⟨others, p, rfl⟩ : ∃ others p, new = others ++ [p] := by
    rcases List.eq_nil_or_concat new with rfl | ⟨others, p, rfl⟩
    · exact absurd (List.sublist_nil.mp h.last) (by simp)
    · exact ⟨others, p, List.concat_eq_append⟩
  have hnodup : ((others ++ [p]).map fun q => q.2.id).Nodup := ids_nodup hh h.outputs (h.runs.trans hruns)
  have hp : p.2.id = w.outputId := id_last hh h.outputs
  -- By its id the acknowledged chunk is the last output.
  have hids : (c.id :: rest.map Chunk.id).Sublist (others.map (fun q => q.2.id) ++ [p.2.id]) := by
    have hmapped := h.last.map Chunk.id
    simpa [Function.comp_def] using hmapped
  have hrest : rest = [] := by
    rw [hid, ← hp] at hids
    rw [List.map_append] at hnodup
    exact List.map_eq_nil_iff.mp (rest_eq_nil hnodup hids)
  have hc : c = p.2 := by
    obtain ⟨q, hq, rfl⟩ := List.mem_map.mp (h.last.subset List.mem_cons_self)
    exact congrArg Prod.snd (List.inj_on_of_nodup_map hnodup hq (by simp) (hid.trans hp.symm))
  have hopens {r : Nat} (hr : (w'.phase r).stage = .held) : Open w' r := by
    unfold Open
    rw [hphase] at hr ⊢
    cases hp : w.phase r with
    | acknowledging a => exact hcompleted r a hp
    | resizing | reading => trivial
    | initializing | connecting | disposing | joining | ended =>
      rw [hp] at hr
      cases hr
  refine ⟨hrest, ?_, List.Sublist.refl _, ?_, Nat.zero_le _, ?_, ?_, ?_, ?_⟩
  · rw [houtputs, h.outputs, List.append_nil]
  · have horder := h.order
    rw [hrest] at horder
    rwa [List.append_nil, List.append_nil]
  · intro r _
    have hbefore := h.runs
    rw [List.length_append, List.length_singleton] at hbefore
    rw [hsame]
    exact Nat.lt_of_lt_of_le (Nat.succ_pos _) hbefore
  · intro r i hr hi
    rw [hphase] at hr
    rw [hsession] at hi
    rw [own_append]
    by_cases ho : Open w r
    · obtain ⟨hnew, hold⟩ := h.ready r i hr hi ho
      have hnone : own i old = [] := by
        by_contra hne
        exact absurd (hold hne) (by simp)
      exact ⟨done ++ [c], by rw [hnew, hnone, List.append_nil, List.append_nil]⟩
    · obtain ⟨before, hbefore⟩ := h.shown r i hr hi
      obtain ⟨others', c', hnew, hothers, -⟩ := h.waits r i hr hi ho
      obtain ⟨rfl, hlast⟩ := List.append_inj' hnew rfl
      have hc' : c' = c := by
        rw [hc, List.singleton_inj.mp hlast]
      refine ⟨before, ?_⟩
      rw [hnew, own_append, own_singleton, hothers, hc', hbefore, List.nil_append, List.append_assoc]
  · exact fun _ _ _ _ _ => ⟨rfl, fun _ => rfl⟩
  · exact fun r i hr _ ho => absurd (hopens hr) ho

end Flight

/-! ## The window and the page -/

variable {json : WebMessageAsJson} {s s' : State} {e : Event} {exact : Prop}

/-- The chunks that the window has posted and whose acknowledgement has not come, unless lost. -/
def State.flying (s : State) (acked : List Chunk) : List Chunk :=
  acked ++ s.page.buffer.pending ++ s.toPage.filterMap Posted.chunk?

/-- The last chunks that the parser was given have acknowledgements on the way. Exactly, where
    nothing was lost: the other outputs have been acknowledged. -/
def InFlight (exact : Prop) (s : State) : Prop :=
  ∃ done acked old new, s.page.parsed = done ++ acked ∧ s.page.acks = acked.map Chunk.id ∧
    Flight s.window done (s.flying acked) old new ∧
    (exact → done = old.map Prod.snd ∧ s.flying acked = new.map Prod.snd)

/-- A step in which no output is lost: the browser takes what is read, and the page is loaded once. -/
def Lossless (s : State) : Event → Prop
  | .window e => delivers e = true
  | .loaded lost _ => lost = 0 ∧ s.page.loaded = false
  | _ => True

/-- So many runs that what they leave behind does not fill the page's write buffer. -/
def manyRuns : Nat := 6103

structure Inv (exact : Prop) (s : State) : Prop where
  reach : TerminalSessions.window.Reach s.window
  tidy : Tidy s.page.buffer
  unloaded : s.page.loaded = false → s.page.buffer = .empty
  flight : s.window.runs ≤ 2 ^ 32 → InFlight exact s

theorem inv_shown : Inv exact shown where
  reach := ⟨[], .init rfl⟩
  tidy := tidy_empty
  unloaded _ := rfl
  flight _ := ⟨[], [], [], [], rfl, rfl, .shown_empty, fun _ => ⟨rfl, rfl⟩⟩

/-- Runs are counted. -/
theorem runs_le {e : TerminalSessions.Event} (hc : Change w e w') : w.runs ≤ w'.runs := by
  rcases hc.calm with hcalm | houter
  · exact Nat.le_of_eq hcalm.runs.symm
  · have hspeaks : e.speaks = false := by
      cases e with
      | reconnect | disconnect | close | stopReturns | restart | closed | initialized | rendererFails => rfl
      | _ => cases houter
    rcases opens_of_change hc hspeaks with ⟨hruns, -⟩ | hruns
    · exact Nat.le_of_eq hruns.symm
    · exact hruns ▸ Nat.le_succ _

/-- A task of the page: what it gives to the parser is acknowledged, what it writes comes from
    the messages. -/
theorem InFlight.moves (h : InFlight exact s) {page : Page} {toPage : List Posted} {written : List Chunk}
    (hmoves : Moves written s.page page)
    (hqueue : (written ++ toPage.filterMap Posted.chunk?).Sublist (s.toPage.filterMap Posted.chunk?))
    (hexact : exact → written ++ toPage.filterMap Posted.chunk? = s.toPage.filterMap Posted.chunk?) :
    InFlight exact { s with page, toPage } := by
  obtain ⟨done, acked, old, new, hparsed, hacks, hflight, hall⟩ := h
  obtain ⟨-, given, hgiven, hpending, hsent⟩ := hmoves
  have hroute : State.flying { s with page, toPage } (acked ++ given) =
      acked ++ s.page.buffer.pending ++ (written ++ toPage.filterMap Posted.chunk?) := by
    show acked ++ given ++ page.buffer.pending ++ toPage.filterMap Posted.chunk? = _
    rw [List.append_assoc acked, hpending]
    simp only [List.append_assoc]
  refine ⟨done, acked ++ given, old, new, ?_, ?_, hflight.lose ?_, fun he => ⟨(hall he).1, ?_⟩⟩
  · rw [hgiven, hparsed, List.append_assoc]
  · rw [hsent, hacks, List.map_append]
  · rw [hroute]
    exact hqueue.append_left _
  · rw [hroute, hexact he]
    exact (hall he).2

theorem step_message (w : TerminalSessions.State) (m : TerminalSessions.Message) :
    TerminalSessions.window.step w (.message m) = some (w.onMessage m) := rfl

theorem Inv.reach_message (h : Inv exact s) (m : TerminalSessions.Message) :
    TerminalSessions.window.Reach (s.window.onMessage m) := Machine.reach_step _ h.reach (step_message s.window m)

/-- A message that acknowledges nothing. -/
theorem InFlight.message (h : InFlight exact s) (hreach : TerminalSessions.window.Reach s.window)
    {m : TerminalSessions.Message} (hm : ∀ id, m ≠ .ack id) {sent : List Sent}
    (hsent : sent.filterMap Sent.acknowledged? = s.page.acks) :
    InFlight exact { s with window := s.window.onMessage m, page := { s.page with sent } } := by
  obtain ⟨done, acked, old, new, hparsed, hacks, hflight, hall⟩ := h
  have hspeaks : (TerminalSessions.Event.message m).speaks = false := by
    cases m with
    | ack id => exact absurd rfl (hm id)
    | ready | resize | input => rfl
  have hc : Change s.window (.message m) (s.window.onMessage m) := .message
  have hfades : Fades s.window (s.window.onMessage m) :=
    (hc.fades (TerminalSessions.inv_of_reach hreach).turns).resolve_right (by simp [hspeaks])
  exact ⟨done, acked, old, new, hparsed, hsent.trans hacks, hflight.fades hfades (opens_of_change hc hspeaks), hall⟩

/-- An acknowledgement of another output than the last one changes no wait. -/
theorem onMessage_stale {id : Int32} (hid : id ≠ w.outputId) :
    w.onMessage (.ack id) = w.record (.acknowledged id) := by
  unfold TerminalSessions.State.onMessage
  simp only [hid, if_false]
  split <;> rfl

/-- That of the last one ends every wait. -/
theorem completed_onMessage (h : Waits w) {r a : Nat} (hr : w.phase r = .acknowledging a) :
    (w.onMessage (.ack w.outputId)).completed a = true := by
  obtain ⟨hack, -⟩ := h.waiting r a hr
  unfold TerminalSessions.State.onMessage
  simp only [hack, if_true]
  exact update_self ..

/-- An acknowledgement. -/
theorem InFlight.ack (h : InFlight exact s) (hreach : TerminalSessions.window.Reach s.window)
    (hruns : s.window.runs ≤ 2 ^ 32) {id : Int32} {sent : List Sent} (hsent : s.page.sent = .ack id :: sent) :
    InFlight exact { s with window := s.window.onMessage (.ack id), page := { s.page with sent } } := by
  obtain ⟨done, acked, old, new, hparsed, hacks, hflight, hall⟩ := h
  obtain ⟨hhistory, hwaits⟩ := TerminalSessions.acks_of_reach hreach
  have hfirst : s.page.acks = id :: sent.filterMap Sent.acknowledged? := by
    rw [Page.acks, hsent]
    rfl
  obtain ⟨c, acked', rfl⟩ : ∃ c acked', acked = c :: acked' := by
    cases acked with
    | nil => exact absurd (hacks.symm.trans hfirst) (by simp)
    | cons c acked' => exact ⟨c, acked', rfl⟩
  obtain ⟨hid, hrest⟩ := List.cons.inj (hacks.symm.trans hfirst)
  have hparsed' : s.page.parsed = done ++ [c] ++ acked' := by rw [hparsed, List.append_assoc]; rfl
  let rest := acked' ++ s.page.buffer.pending ++ s.toPage.filterMap Posted.chunk?
  have hflying : Flight s.window done (c :: rest) old new := hflight
  have hall' : exact → done = old.map Prod.snd ∧ c :: rest = new.map Prod.snd := hall
  by_cases hlast : id = s.window.outputId
  · -- The output that was posted last.
    have houtputs : chunksOut (s.window.onMessage (.ack id)).history = chunksOut s.window.history :=
      chunksOut_onMessage s.window (.ack id)
    obtain ⟨f, q, cols, l, b, u, d, -, hs, -⟩ := s.window.onMessage_eq (.ack id)
    have hcompleted (r a : Nat) (hr : s.window.phase r = .acknowledging a) :
        (s.window.onMessage (.ack id)).completed a = true := hlast ▸ completed_onMessage hwaits hr
    have hrelease : rest = [] ∧ Flight (s.window.onMessage (.ack id)) (done ++ [c]) [] (old ++ new) [] :=
      hflying.release hhistory (hid.trans hlast) hruns houtputs (by rw [hs]) (by rw [hs]) (by rw [hs]) hcompleted
    refine ⟨done ++ [c], acked', old ++ new, [], hparsed', hrest.symm, ?_, fun he => ⟨?_, hrelease.1⟩⟩
    · show Flight (s.window.onMessage (.ack id)) (done ++ [c]) rest (old ++ new) []
      rw [hrelease.1]
      exact hrelease.2
    · obtain ⟨hdone, hnew⟩ := hall' he
      rw [List.map_append, ← hdone, ← hnew, hrelease.1]
  · have hcid : c.id ≠ s.window.outputId := by rw [hid]; exact hlast
    rw [onMessage_stale hlast]
    by_cases he : exact
    · obtain ⟨hdone, hnew⟩ := hall' he
      cases new with
      | nil => cases hnew
      | cons p new =>
        obtain ⟨rfl, hnew'⟩ := List.cons.inj hnew
        have hstale : Flight s.window (done ++ [p.2]) rest (old ++ [p]) new := hflying.stale_first hhistory hcid hnew'
        refine ⟨done ++ [p.2], acked', old ++ [p], new, hparsed', hrest.symm, hstale.record rfl, fun _ => ⟨?_, hnew'⟩⟩
        rw [List.map_append, hdone]
        rfl
    · have hstale : Flight s.window (done ++ [c]) rest old new := hflying.stale hhistory hcid
      exact ⟨done ++ [c], acked', old, new, hparsed', hrest.symm, hstale.record rfl, fun he' => absurd he' he⟩

/-- The browser writes the text of an acknowledgement in at most 65536 characters. -/
def ShortAcks (json : WebMessageAsJson) : Prop := ∀ id, (json (.ack id)).length ≤ 65536

theorem Inv.received (h : Inv exact s) (hjson : ShortAcks json) {m : Sent} {sent : List Sent}
    (hsent : s.page.sent = m :: sent) : Inv exact (onMessage json { s with page := { s.page with sent } } m) := by
  let quiet : State := { s with page := { s.page with sent } }
  have hacks : s.page.acks = m.acknowledged?.toList ++ sent.filterMap Sent.acknowledged? := by
    rw [Page.acks, hsent, List.filterMap_cons]
    cases m <;> rfl
  have htidy : Tidy s.page.buffer := h.tidy
  have hunloaded : s.page.loaded = false → s.page.buffer = .empty := h.unloaded
  -- A message that reaches no run.
  have hquiet (hm : m.acknowledged? = none) : Inv exact quiet := by
    rw [hm] at hacks
    refine ⟨h.reach, htidy, hunloaded, fun hruns => ?_⟩
    obtain ⟨done, acked, old, new, hparsed, hbefore, hflight⟩ := h.flight hruns
    exact ⟨done, acked, old, new, hparsed, hacks.symm.trans hbefore, hflight⟩
  have hmessage (m' : TerminalSessions.Message) (hm : m.acknowledged? = none) (hm' : ∀ id, m' ≠ .ack id) :
      Inv exact { quiet with window := s.window.onMessage m' } := by
    rw [hm] at hacks
    refine ⟨h.reach_message m', htidy, hunloaded, fun hruns => ?_⟩
    exact (h.flight ((runs_le .message).trans hruns)).message h.reach hm' hacks.symm
  unfold onMessage
  split
  · rename_i hlong
    refine hquiet ?_
    cases m with
    | ack id => exact absurd (hjson id) (Nat.not_le_of_lt hlong)
    | _ => rfl
  · cases m with
    | ready cols rows => exact hmessage _ rfl (by simp)
    | resize cols rows => exact hmessage _ rfl (by simp)
    | input data => exact hmessage _ rfl (by simp)
    | ack id =>
      refine ⟨h.reach_message (.ack id), htidy, hunloaded, fun hruns => ?_⟩
      have hbefore : s.window.runs ≤ 2 ^ 32 := (runs_le .message).trans hruns
      exact (h.flight hbefore).ack h.reach hbefore hsent
    | copy selection =>
      dsimp only
      split
      · have hq := hquiet rfl
        exact ⟨hq.reach, hq.tidy, hq.unloaded, hq.flight⟩
      · exact hquiet rfl
    | paste => exact hquiet rfl

/-! ## What the parsers were given -/

/-- What a step of the window passes: an output with the bytes that were read, or neither. -/
theorem history_of_change {e : TerminalSessions.Event} (ht : Turns w) (hc : Change w e w') :
    (∃ xs, w'.history = w.history ++ xs ∧ ∀ x ∈ xs, ∀ i, x.bytesOf i = none) ∨
      ∃ r i bytes posted, e = .read r (some bytes) posted ∧ w.phase r = .reading i ∧
        w'.history = w.history ++ [.read i bytes, .output i (w.outputId + 1) (toBase64String bytes)] := by
  have hsame {v : TerminalSessions.State} (hv : v.history = w.history) :
      ∃ xs, v.history = w.history ++ xs ∧ ∀ x ∈ xs, ∀ i, x.bytesOf i = none :=
    ⟨[], hv.trans (List.append_nil _).symm, List.forall_mem_nil _⟩
  rcases hc.fades ht with hfades | hspeaks
  · exact Or.inl (hsame hfades.history)
  · cases hc with
    | refused => exact Or.inl (hsame rfl)
    | @message m =>
      cases m with
      | ack id =>
        refine Or.inl ⟨[.acknowledged id], ?_, by simp [Happening.bytesOf]⟩
        unfold TerminalSessions.State.onMessage
        dsimp only
        split
        · split <;> rfl
        · rfl
      | _ => cases hspeaks
    | @prepared r posted =>
      have hreset : ∀ x ∈ [Happening.reset], ∀ i, x.bytesOf i = none := by simp [Happening.bytesOf]
      unfold TerminalSessions.State.prepared
      split
      · exact Or.inl (hsame (Fades.unwind w r).history)
      · split
        · exact Or.inl ⟨_, rfl, hreset⟩
        · exact Or.inl ⟨_, (Fades.unwind (w.record .reset) r).history, hreset⟩
    | @connected r ok =>
      refine Or.inl (hsame ?_)
      cases ok
      · exact (Fades.unwind w r).history
      · rfl
    | @resized r ok =>
      obtain ⟨f, d, p, q, -, hs⟩ := w.resized_eq r ok
      exact Or.inl (hsame (by rw [hs]))
    | @waited r a late hr =>
      obtain ⟨f, d, p, -, hs⟩ := w.waited_eq hr late
      exact Or.inl (hsame (by rw [hs]))
    | @read r i bytes posted hr =>
      unfold TerminalSessions.State.read
      split
      · exact Or.inl (hsame (Fades.unwind w r).history)
      · exact Or.inl (hsame (Fades.unwind w r).history)
      · rename_i bytes _
        have hout : (w.output i bytes).history =
            w.history ++ [.read i bytes, .output i (w.outputId + 1) (toBase64String bytes)] := List.append_assoc _ _ _
        refine Or.inr ⟨r, i, bytes, posted, rfl, hr, ?_⟩
        split
        · exact hout
        · exact (Fades.unwind (w.output i bytes) r).history.trans hout
    | writerFails _ he => rcases he with rfl | rfl <;> cases hspeaks
    | _ => cases hspeaks

/-- `ReadAsync` fills a buffer of 8192 bytes at most. -/
theorem reads_small (h : TerminalSessions.window.Reach w) (i : Nat) :
    ∀ bytes ∈ TerminalSessions.reads i w.history, bytes.length ≤ 8192 := by
  obtain ⟨log, h⟩ := h
  refine h.log_inv (I := fun _ w => ∀ bytes ∈ TerminalSessions.reads i w.history, bytes.length ≤ 8192) ?_ ?_
  · rintro w rfl
    exact nofun
  · intro log w e w' hrun hsmall hs bytes hbytes
    have hc : Change w e w' := TerminalSessions.step_change hs
    rcases history_of_change (TerminalSessions.inv_of_reach ⟨log, hrun⟩).turns hc with
      ⟨xs, hw, hxs⟩ | ⟨r, j, read, posted, rfl, hr, hw⟩
    · have hnone : xs.filterMap (Happening.bytesOf i) = [] := List.filterMap_eq_nil_iff.mpr fun x hx => hxs x hx i
      rw [TerminalSessions.reads, hw, List.filterMap_append, hnone, List.append_nil] at hbytes
      exact hsmall bytes hbytes
    · rw [TerminalSessions.reads, hw, List.filterMap_append, List.mem_append] at hbytes
      rcases hbytes with hbytes | hbytes
      · exact hsmall bytes hbytes
      · obtain ⟨x, hx, hread⟩ := List.mem_filterMap.mp hbytes
        have heq : bytes = read := by
          rcases List.mem_cons.mp hx with rfl | hx
          · simp only [Happening.bytesOf, Option.ite_none_right_eq_some, Option.some.injEq] at hread
            exact hread.2.symm
          · rw [List.mem_singleton.mp hx] at hread
            cases hread
        change TerminalSessions.step w (.read r (some read) posted) = some w' at hs
        simp only [TerminalSessions.step, hr] at hs
        obtain ⟨hfits, -⟩ := Option.ite_none_right_eq_some.mp hs
        exact heq ▸ hfits read rfl

theorem chunksOut_small (h : TerminalSessions.window.Reach w) : ∀ p ∈ chunksOut w.history, p.2.bytes.length ≤ 8192 := by
  intro p hp
  have hhistory := (TerminalSessions.acks_of_reach h).history
  refine reads_small h p.1 p.2.bytes ?_
  rw [← own_chunksOut hhistory]
  exact List.mem_map.mpr ⟨p.2, List.mem_filterMap.mpr ⟨p, hp, by simp⟩, rfl⟩

theorem byteCount_le {chunks : List Chunk} (h : ∀ c ∈ chunks, c.bytes.length ≤ 8192) :
    byteCount chunks ≤ 8192 * chunks.length := by
  induction chunks with
  | nil => exact Nat.le_refl _
  | cons c chunks ih =>
    have hc := h c List.mem_cons_self
    have hrest := ih fun c' hc' => h c' (List.mem_cons_of_mem _ hc')
    rw [byteCount_cons, List.length_cons]
    omega

/-- What is in flight are outputs, one for each run at most. -/
theorem Flight.small {done flying : List Chunk} {old new : List (Nat × Chunk)} (h : Flight w done flying old new)
    (hreach : TerminalSessions.window.Reach w) : byteCount flying ≤ 8192 * w.runs := by
  have hlength : flying.length ≤ w.runs := by
    have hlast := h.last.length_le
    rw [List.length_map] at hlast
    exact hlast.trans h.runs
  refine (byteCount_le fun c hc => ?_).trans (Nat.mul_le_mul_left 8192 hlength)
  obtain ⟨p, hp, rfl⟩ := List.mem_map.mp (h.last.subset hc)
  refine chunksOut_small hreach p ?_
  rw [h.outputs]
  exact List.mem_append_right old hp

/-- A step of the window: what it posts is in flight. -/
theorem Inv.window (h : Inv exact s) {e : TerminalSessions.Event} (hs : TerminalSessions.step s.window e = some w)
    (hm : isMessage e = false) (hok : exact → delivers e = true) :
    Inv exact { s with window := w, toPage := s.toPage ++ if taken e then newlyPosted s.window w else [] } := by
  have hc : Change s.window e w := TerminalSessions.step_change hs
  refine ⟨Machine.reach_step e h.reach hs, h.tidy, h.unloaded, fun hruns => ?_⟩
  obtain ⟨done, acked, old, new, hparsed, hacks, hflight, hall⟩ := h.flight ((runs_le hc).trans hruns)
  obtain ⟨extra, hposts, hadded⟩ :=
    hflight.window_step (TerminalSessions.inv_of_reach h.reach) (TerminalSessions.acks_of_reach h.reach) hc hm
  have hflying : State.flying { s with
      window := w, toPage := s.toPage ++ if taken e then newlyPosted s.window w else [] } acked =
      s.flying acked ++ added e s.window w := by
    rw [State.flying, State.flying, List.filterMap_append, ← List.append_assoc]
    rfl
  refine ⟨done, acked, old, new ++ extra, hparsed, hacks, ?_, fun he => ⟨(hall he).1, ?_⟩⟩
  · rw [hflying]
    exact hposts
  · rw [hflying, (hall he).2, hadded (hok he), List.map_append]

/-- The page receives a message: nothing is dropped while there are not so many runs. -/
theorem Inv.delivered (h : Inv exact s) {m : Posted} {rest : List Posted} (hqueue : s.toPage = m :: rest)
    (hloaded : s.page.loaded = true) (hruns : exact → s.window.runs ≤ manyRuns) (dimensions : Option (Int × Int))
    (turn : Turn) : Inv exact { s with toPage := rest, page := s.page.receive m dimensions turn } := by
  obtain ⟨htidy, hmoves⟩ := Page.receive_spec h.tidy m dimensions turn
  have hchunks : s.toPage.filterMap Posted.chunk? = m.chunk?.toList ++ rest.filterMap Posted.chunk? := by
    rw [hqueue, List.filterMap_cons]
    cases m.chunk? <;> rfl
  have hstays : (s.page.receive m dimensions turn).loaded = true := by
    rcases hmoves with hmoves | ⟨-, hmoves⟩ <;> exact hmoves.1.trans hloaded
  refine ⟨h.reach, htidy, fun hno => absurd (hstays.symm.trans hno) (by simp), fun hmany => ?_⟩
  have hflight := h.flight hmany
  rcases hmoves with hmoves | ⟨hfull, hmoves⟩
  · exact hflight.moves hmoves (hchunks ▸ .refl _) fun _ => hchunks.symm
  · refine hflight.moves hmoves ?_ fun he => ?_
    · rw [hchunks]
      exact List.sublist_append_right _ _
    · obtain ⟨done, acked, old, new, -, -, hsmall, -⟩ := hflight
      have hbytes := hsmall.small h.reach
      have hfew := hruns he
      rw [State.flying, byteCount_append, byteCount_append] at hbytes
      unfold manyRuns at hfew
      omega

theorem Inv.task (h : Inv exact s) {e : TerminalPage.Event} {page : Page} (hs : TerminalPage.step s.page e = some page)
    (hloaded : s.page.loaded = true) : Inv exact { s with page } := by
  obtain ⟨hmoves, htidy⟩ := step_spec h.tidy hs
  refine ⟨h.reach, htidy, fun hno => absurd ((hmoves.1.trans hloaded).symm.trans hno) (by simp), fun hruns => ?_⟩
  exact (h.flight hruns).moves hmoves (.refl _) fun _ => rfl

/-- Loading the page loses what waits in it, and messages that have not come to it. -/
theorem Inv.loaded (h : Inv exact s) {lost : Nat} (hok : exact → lost = 0 ∧ s.page.loaded = false)
    (dimensions : Option (Int × Int)) :
    Inv exact { s with toPage := s.toPage.drop lost, page := s.page.load dimensions } := by
  obtain ⟨hloaded, hbuffer, hparsed', hacks'⟩ := s.page.load_spec dimensions
  have htidy : Tidy (s.page.load dimensions).buffer := hbuffer ▸ tidy_empty
  refine ⟨h.reach, htidy, fun hno => absurd (hloaded.symm.trans hno) (by simp), fun hruns => ?_⟩
  obtain ⟨done, acked, old, new, hparsed, hacks, hflight, hall⟩ := h.flight hruns
  have hflying : State.flying { s with toPage := s.toPage.drop lost, page := s.page.load dimensions } acked =
      acked ++ (s.toPage.drop lost).filterMap Posted.chunk? := by
    show acked ++ (s.page.load dimensions).buffer.pending ++ (s.toPage.drop lost).filterMap Posted.chunk? = _
    rw [hbuffer]
    exact congrArg (· ++ _) (List.append_nil acked)
  refine ⟨done, acked, old, new, hparsed'.trans hparsed, hacks'.trans hacks, hflight.lose ?_, ?_⟩
  · rw [hflying, State.flying, List.append_assoc]
    exact (((List.drop_sublist lost s.toPage).filterMap _).trans (List.sublist_append_right _ _)).append_left acked
  · intro he
    obtain ⟨rfl, hno⟩ := hok he
    refine ⟨(hall he).1, ?_⟩
    rw [hflying, ← (hall he).2, State.flying, h.unloaded hno]
    exact congrArg (· ++ _) (List.append_nil acked).symm

theorem Inv.step (h : Inv exact s) (hjson : ShortAcks json) (hok : exact → Lossless s e)
    (hruns : exact → s.window.runs ≤ manyRuns) (hs : (link json).step s e = some s') : Inv exact s' := by
  cases step_transition hs with
  | window hm hw => exact h.window hw hm hok
  | @delivered m rest dimensions turn hqueue hloaded => exact h.delivered hqueue hloaded hruns dimensions turn
  | received hsent => exact h.received hjson hsent
  | task hloaded hpage => exact h.task hpage hloaded
  | @loaded lost dimensions => exact h.loaded hok dimensions

theorem inv_of_reach (hjson : ShortAcks json) (h : (link json).Reach s) : Inv False s :=
  h.inv (fun _ hs => hs ▸ inv_shown) fun _ _ _ hinv hs => hinv.step hjson False.elim False.elim hs

/-- Where the held session's outputs have all been acknowledged, they are the last the parsers were given. -/
theorem InFlight.shows (h : InFlight exact s) (hreach : TerminalSessions.window.Reach s.window) {r i : Nat}
    (hstage : (s.window.phase r).stage = .held) (hi : s.window.session = some i) (ho : Open s.window r) :
    ∃ before, s.page.parsed.map Chunk.bytes = before ++ TerminalSessions.reads i s.window.history := by
  have hhistory := (TerminalSessions.acks_of_reach hreach).history
  obtain ⟨done, acked, old, new, hparsed, -, hflight, -⟩ := h
  obtain ⟨before, hdone⟩ := hflight.shown r i hstage hi
  obtain ⟨hnew, hold⟩ := hflight.ready r i hstage hi ho
  have hreads : TerminalSessions.reads i s.window.history = (own i old).map Chunk.bytes := by
    rw [← own_chunksOut hhistory, hflight.outputs, own_append, hnew, List.append_nil]
  rw [hreads]
  by_cases hnone : own i old = []
  · exact ⟨s.page.parsed.map Chunk.bytes, by rw [hnone, List.map_nil, List.append_nil]⟩
  · have hacked : acked.Sublist [] := by
      have hlast := hflight.last
      rw [hold hnone, State.flying, List.append_assoc] at hlast
      exact (List.sublist_append_left _ _).trans hlast
    rw [hparsed, List.sublist_nil.mp hacked, List.append_nil, hdone, List.map_append]
    exact ⟨_, rfl⟩

/-- While a run waits for an acknowledgement, its last output alone may be missing. -/
theorem InFlight.shows_waiting (h : InFlight exact s) (hreach : TerminalSessions.window.Reach s.window) {r i : Nat}
    (hstage : (s.window.phase r).stage = .held) (hi : s.window.session = some i) : ∃ before rest,
    s.page.parsed.map Chunk.bytes = before ++ (TerminalSessions.reads i s.window.history).dropLast ++ rest ∧
      (2 ≤ (TerminalSessions.reads i s.window.history).length →
        rest.Sublist (TerminalSessions.reads i s.window.history).getLast?.toList) := by
  by_cases ho : Open s.window r
  · -- The acknowledgement has come, and the run has not seen it.
    obtain ⟨before, hall⟩ := h.shows hreach hstage hi ho
    rcases List.eq_nil_or_concat (TerminalSessions.reads i s.window.history) with hnone | ⟨first, last, hreads⟩
    · exact ⟨before, [], by rw [hall, hnone]; simp, by simp [hnone]⟩
    · exact ⟨before, [last], by rw [hall, hreads]; simp, by simp [hreads]⟩
  · have hhistory := (TerminalSessions.acks_of_reach hreach).history
    obtain ⟨done, acked, old, new, hparsed, -, hflight, -⟩ := h
    obtain ⟨before, hdone⟩ := hflight.shown r i hstage hi
    obtain ⟨others, c, hnew, hothers, hold⟩ := hflight.waits r i hstage hi ho
    have hownNew : own i new = [c] := by rw [hnew, own_append, hothers, own_singleton, List.nil_append]
    have hreads : TerminalSessions.reads i s.window.history = (own i old).map Chunk.bytes ++ [c.bytes] := by
      rw [← own_chunksOut hhistory, hflight.outputs, own_append, hownNew, List.map_append, List.map_singleton]
    rw [hreads, List.dropLast_concat, List.getLast?_concat, hparsed, List.map_append, hdone, List.map_append]
    refine ⟨before.map Chunk.bytes, acked.map Chunk.bytes, rfl, fun hlength => ?_⟩
    have hne : own i old ≠ [] := by
      intro hnone
      rw [hnone] at hlength
      simp at hlength
    have hacked : acked.Sublist (new.map Prod.snd) := by
      refine List.Sublist.trans ?_ hflight.last
      rw [State.flying, List.append_assoc]
      exact List.sublist_append_left _ _
    rw [hnew, hold hne] at hacked
    exact hacked.map Chunk.bytes

/-- What the parsers were given, over all loads of the page, are outputs of the window, in
    their order, each once at most.
    While a run reads, the last of it is all that its session has given, in order and with
    nothing between; while it waits for an acknowledgement, its last output alone may be
    missing. What waits on the way is at most one output for each run. -/
theorem page_shows_reads (hjson : ShortAcks json) (h : (link json).Reach s) (hruns : s.window.runs ≤ 2 ^ 32) :
    s.page.parsed.Sublist ((chunksOut s.window.history).map Prod.snd) ∧
      (∀ r i, s.window.phase r = .reading i → ∃ before,
        s.page.parsed.map Chunk.bytes = before ++ TerminalSessions.reads i s.window.history) ∧
      (∀ r a i, s.window.phase r = .acknowledging a → s.window.session = some i → ∃ before rest,
        s.page.parsed.map Chunk.bytes = before ++ (TerminalSessions.reads i s.window.history).dropLast ++ rest ∧
          (2 ≤ (TerminalSessions.reads i s.window.history).length →
            rest.Sublist (TerminalSessions.reads i s.window.history).getLast?.toList)) ∧
      byteCount (s.page.buffer.pending ++ s.toPage.filterMap Posted.chunk?) ≤ 8192 * s.window.runs := by
  have hinv := inv_of_reach hjson h
  have hmany := hinv.flight hruns
  obtain ⟨done, acked, old, new, hparsed, -, hflight, -⟩ := hinv.flight hruns
  refine ⟨?_, ?_, ?_, ?_⟩
  · rw [hparsed, hflight.outputs]
    refine List.Sublist.trans ?_ hflight.order
    rw [State.flying, List.append_assoc]
    exact (List.sublist_append_left _ _).append_left done
  · intro r i hr
    have hi : s.window.session = some i := (TerminalSessions.inv_of_reach hinv.reach).owns.reading r i hr
    exact hmany.shows hinv.reach (by rw [hr]; rfl) hi (by rw [Open, hr]; trivial)
  · intro r a i hr hi
    exact hmany.shows_waiting hinv.reach (by rw [hr]; rfl) hi
  · refine Nat.le_trans ?_ (hflight.small hinv.reach)
    rw [State.flying, List.append_assoc, byteCount_append acked]
    exact Nat.le_add_left _ _

/-- A run of the window and the page: the parser was given the second output, its acknowledgement
    on the way. -/
def twoOutputs : List Event :=
  [.window .reconnect, .window (.stopReturns 0), .window (.restart 0), .loaded 0 none, .received,
    .window (.initialized true), .window (.prepared 0 true), .delivered none ⟨[], []⟩, .window (.connected 0 true),
    .window (.resized 0 true), .window (.read 0 (some [72]) true), .delivered none ⟨[], []⟩, .task (.timer ⟨[], []⟩),
    .received, .window (.waited 0 false), .window (.read 0 (some [73]) true), .delivered none ⟨[], []⟩,
    .task (.timer ⟨[], []⟩)]

theorem page_shows_two : ∃ s, (link fun _ => []).Reach s ∧ s.page.parsed.map Chunk.bytes = [[72], [73]] ∧
    ∃ before rest, s.page.parsed.map Chunk.bytes = before ++ [[72]] ++ rest ∧ rest.Sublist [[73]] := by
  obtain ⟨log, s, hr, -, hp⟩ := Machine.exists_run (link fun _ => []) (fun _ _ => True)
    (fun s => s.window.phase 0 = .acknowledging 1 && s.window.session = some 0 && s.window.runs = 1 &&
      TerminalSessions.reads 0 s.window.history = [[72], [73]] && s.page.parsed.map Chunk.bytes = [[72], [73]])
    twoOutputs rfl (by decide +kernel)
  simp only [Bool.and_eq_true, decide_eq_true_eq] at hp
  obtain ⟨⟨⟨⟨hphase, hsession⟩, hruns⟩, hreads⟩, hparsed⟩ := hp
  have hfew : s.window.runs ≤ 2 ^ 32 := by
    rw [hruns]
    decide
  obtain ⟨-, -, hwaiting, -⟩ := page_shows_reads (fun _ => Nat.zero_le _) ⟨log, hr⟩ hfew
  obtain ⟨before, rest, hall, hrest⟩ := hwaiting 0 1 0 hphase hsession
  rw [hreads] at hall hrest
  exact ⟨s, ⟨log, hr⟩, hparsed, before, rest, hall, hrest (Nat.le_refl 2)⟩

end MythLab.App.TerminalLink
