/-
  MythLab.Discovery.ConcurrentScan — every interleaving comes to what the scan without
  concurrency does.

  In the runs considered the probes answer by address (`Agrees`) and nothing is cancelled.
  Each worker is `OnTrack`: finished by itself from where it is, it would make of its
  record what it makes by itself from the start. Only the worker of an address touches its
  record, so the steps of the others leave it there; once all have ended, the records are
  those of the reference. Each step lowers `State.rank`, and until the scan has returned
  one is possible.

  Proved for every such run: `concurrent_scan_is_sequential`.
-/
import MythLab.Discovery.ScanFindings

namespace MythLab.Discovery.NetworkDiscoveryService

open Lib Dotnet Devices

/-! ## The runs considered -/

/-- The probes answer as `answers` says, and nothing is cancelled. -/
def Agrees (scan : Scan) (answers : Answers) (s : State) : Event → Prop
  | .cancel | .throws _ => False
  | .neighborsReturn entries => ∀ final, s.phase = .reading final → answers.neighbors final = some entries
  | .neighborsThrow _ => ∀ final, s.phase = .reading final → answers.neighbors final = none
  | .pingReturns i reply _ => reply = answers.ping (scan.address i)
  | .resolveReturns i mac => mac = answers.resolve (scan.address i)
  | .nameReturns i name => name = answers.name (scan.address i)
  | _ => True

/-- The same records, up to their times. -/
def SameRecords (results results' : Results) : Prop :=
  ∀ address, (results.find address).map untimed = (results'.find address).map untimed

theorem SameRecords.merge {scan : Scan} {results results' : Results} (h : SameRecords results results')
    (entries : List NeighborEntry) :
    SameRecords (mergeNeighbors scan results entries) (mergeNeighbors scan results' entries) := by
  induction entries generalizing results results' with
  | nil => exact h
  | cons entry entries ih =>
    unfold mergeNeighbors
    split
    · exact ih h
    · exact h
    · rename_i d _
      refine ih ?_
      intro address
      by_cases hsame : address = d.address
      · subst hsame
        rw [find_addOrUpdate_self, find_addOrUpdate_self, untimed_put, untimed_put, h]
      · rw [find_addOrUpdate_ne _ hsame, find_addOrUpdate_ne _ hsame]
        exact h address

/-! ## One worker -/

/-- The record a worker holds. -/
def Worker.device : Worker → Option DiscoveredDevice
  | .publishing _ d | .storing _ d | .naming d => some d
  | _ => none

/-- Before the lookup or right after it: a worker of another host, and nothing is stored yet. -/
def Worker.isEarly : Worker → Bool
  | .pinging | .lookingUp _ _ | .resolving _ _ => true
  | _ => false

/-- One for a worker that has ended. -/
def Worker.ends (w : Worker) : Nat := if w = .ended then 1 else 0

structure OnTrack (scan : Scan) (answers : Answers) (address : Str) (w : Worker) (cell : Cell) : Prop where
  ends : (finish scan answers address w cell).map untimed =
    (finish scan answers address (scan.start address epoch) ((afterFirst scan answers).find address)).map untimed
  holds : ∀ d, w.device = some d → d.address = address
  early : w.isEarly = true → cell = (afterFirst scan answers).find address ∧ address ≠ scan.interface.address
  alive : w ≠ .threw

section Worker

variable {scan : Scan} {answers : Answers} {address : Str} {cell : Cell}

theorem start_onTrack (now : DateTimeOffset) :
    OnTrack scan answers address (scan.start address now) ((afterFirst scan answers).find address) := by
  unfold Scan.start
  by_cases hlocal : address = scan.interface.address
  · rw [if_pos hlocal]
    refine ⟨?_, nofun, nofun, nofun⟩
    rw [Scan.start, if_pos hlocal]
    exact untimed_finishGather _ rfl
  · rw [if_neg hlocal]
    refine ⟨?_, nofun, fun _ => ⟨rfl, hlocal⟩, nofun⟩
    rw [Scan.start, if_neg hlocal]

theorem afterPing_cases (reply : Bool) (now : DateTimeOffset) :
    ∃ evidence live, afterPing reply now = .lookingUp evidence live := by
  cases reply
  · exact ⟨.none, none, rfl⟩
  · exact ⟨{ pingReply := true }, some now, rfl⟩

theorem lookUp_cases (evidence : Evidence) (live : Option DateTimeOffset) (cached : Option DiscoveredDevice) :
    lookUp evidence live cached = .resolving evidence live ∨ ∃ mac, lookUp evidence live cached = .gathering evidence mac live := by
  unfold lookUp
  split
  · split
    · exact Or.inr ⟨_, rfl⟩
    · exact Or.inl rfl
  · exact Or.inl rfl

theorem gather_cases (scan : Scan) (address : Str) (evidence : Evidence) (mac : Option Str) (live : Option DateTimeOffset)
    (cached : Option DiscoveredDevice) : scan.gather address evidence mac live cached = .reporting ∨
      ∃ d, d.address = address ∧ scan.gather address evidence mac live cached = .publishing false d := by
  unfold Scan.gather
  split
  · exact Or.inr ⟨_, rfl, rfl⟩
  · exact Or.inl rfl

theorem afterName_cases (device : DiscoveredDevice) (name : Option Str) : afterName device name = .reporting ∨
    ∃ d, d.address = device.address ∧ afterName device name = .publishing true d := by
  unfold afterName
  split
  · exact Or.inl rfl
  · exact Or.inr ⟨{ device with hostname := name.getD [] }, rfl, rfl⟩

/-- A step of a worker that leaves the results alone leaves it on track. -/
theorem moves_onTrack {s : State} {i : Nat} {w w' : Worker} {e : Event} {as : List Action}
    (hon : OnTrack scan answers (scan.address i) w (s.results.find (scan.address i))) (hagrees : Agrees scan answers s e)
    (hcancelled : s.cancelled = false) (h : Moves scan s i w e as w') :
    OnTrack scan answers (scan.address i) w' (s.results.find (scan.address i)) := by
  obtain ⟨hends, hholds, hearly, -⟩ := hon
  cases h with
  | ping reply now =>
    obtain rfl : reply = _ := hagrees
    refine ⟨?_, ?_, fun _ => hearly rfl, ?_⟩
    · rw [finish_ping, untimed_finishPing]
      exact hends
    all_goals
      obtain ⟨_, _, hw⟩ := afterPing_cases (answers.ping (scan.address i)) now
      rw [hw]
      exact nofun
  | lookUp evidence live =>
    refine ⟨?_, ?_, fun _ => hearly rfl, ?_⟩
    · rw [finish_lookUp]
      exact hends
    all_goals
      rcases lookUp_cases evidence live (s.results.find (scan.address i)) with hw | ⟨_, hw⟩ <;> rw [hw] <;> exact nofun
  | resolve evidence live mac =>
    obtain rfl : mac = _ := hagrees
    refine ⟨?_, nofun, nofun, nofun⟩
    rw [finish_resolve]
    exact hends
  | gather evidence mac live =>
    have hfinish : finish scan answers (scan.address i) _ _ = _ :=
      finish_gather evidence mac live (s.results.find (scan.address i))
    rcases gather_cases scan (scan.address i) evidence mac live (s.results.find (scan.address i)) with hw | ⟨d, hd, hw⟩
    · rw [hw] at hfinish ⊢
      exact ⟨(congrArg _ hfinish).trans hends, nofun, nofun, nofun⟩
    · rw [hw] at hfinish ⊢
      refine ⟨(congrArg _ hfinish).trans hends, ?_, nofun, nofun⟩
      intro d' hd'
      cases hd'
      exact hd
  | check named device =>
    rw [hcancelled]
    refine ⟨?_, hholds, nofun, nofun⟩
    cases named <;> exact hends
  | name device name =>
    obtain rfl : name = _ := hagrees
    have hfinish : finish scan answers (scan.address i) _ _ = _ := finish_name device (s.results.find (scan.address i))
    rcases afterName_cases device (answers.name (scan.address i)) with hw | ⟨d, hd, hw⟩
    · rw [hw] at hfinish ⊢
      exact ⟨(congrArg _ hfinish).trans hends, nofun, nofun, nofun⟩
    · rw [hw] at hfinish ⊢
      refine ⟨(congrArg _ hfinish).trans hends, ?_, nofun, nofun⟩
      intro d' hd'
      cases hd'
      exact hd.trans (hholds device rfl)
  | throws => exact hagrees.elim

theorem moves_ends {s : State} {i : Nat} {w w' : Worker} {e : Event} {as : List Action}
    (hagrees : Agrees scan answers s e) (h : Moves scan s i w e as w') : w.ends = 0 ∧ w'.ends = 0 := by
  cases h with
  | ping reply now => cases reply <;> exact ⟨rfl, rfl⟩
  | lookUp evidence live =>
    rcases lookUp_cases evidence live (s.results.find (scan.address i)) with hw | ⟨_, hw⟩ <;> rw [hw] <;> exact ⟨rfl, rfl⟩
  | resolve => exact ⟨rfl, rfl⟩
  | gather evidence mac live =>
    rcases gather_cases scan (scan.address i) evidence mac live (s.results.find (scan.address i)) with hw | ⟨_, -, hw⟩ <;>
      rw [hw] <;> exact ⟨rfl, rfl⟩
  | check named =>
    refine ⟨rfl, ?_⟩
    split
    · cases named <;> rfl
    · rfl
  | name device name =>
    rcases afterName_cases device name with hw | ⟨_, -, hw⟩ <;> rw [hw] <;> exact ⟨rfl, rfl⟩
  | throws => exact hagrees.elim

theorem publish_onTrack {named : Bool} {d : DiscoveredDevice} (hon : OnTrack scan answers address (.storing named d) cell) :
    OnTrack scan answers address (afterPublish named d) (put cell d) := by
  obtain ⟨hends, hholds, -, -⟩ := hon
  refine ⟨?_, ?_, ?_, ?_⟩
  · rw [finish_publish]
    exact hends
  · cases named
    · exact hholds
    · exact nofun
  · cases named <;> exact nofun
  · cases named <;> exact nofun

end Worker

/-! ## The state -/

/-- While the workers run: each is on track, and the addresses not taken are untouched. -/
structure Working (scan : Scan) (answers : Answers) (s : State) : Prop where
  workers : ∀ i w, s.workers[i]? = some w →
    OnTrack scan answers (scan.address i) w (s.results.find (scan.address i))
  rest : ∀ address, (∀ i < s.workers.length, address ≠ scan.address i) →
    s.results.find address = (afterFirst scan answers).find address
  taken : s.workers.length ≤ scan.range.count

/-- What the results still come to. -/
def Comes (scan : Scan) (answers : Answers) (s : State) : Prop :=
  match s.phase with
  | .reading false => s.results = .empty ∧ s.workers = []
  | .merging false entries => mergeNeighbors scan s.results entries = afterFirst scan answers ∧ s.workers = []
  | .storing false _ device entries =>
    mergeNeighbors scan (addOrUpdate s.results device) entries = afterFirst scan answers ∧ s.workers = []
  | .working => Working scan answers s
  | .reading true =>
    SameRecords s.results (afterVisits scan answers scan.range.count) ∧ s.completed = scan.range.count
  | .merging true entries =>
    SameRecords (mergeNeighbors scan s.results entries) (sequential scan answers) ∧ s.completed = scan.range.count
  | .storing true _ device entries =>
    SameRecords (mergeNeighbors scan (addOrUpdate s.results device) entries) (sequential scan answers) ∧
      s.completed = scan.range.count
  | .returned scanned found =>
    scanned = scan.range.count ∧ found = s.results.rows.length ∧ SameRecords s.results (sequential scan answers)
  | .threw => False

structure Tracks (scan : Scan) (answers : Answers) (s : State) : Prop where
  uncancelled : s.cancelled = false
  completed : s.completed = weight Worker.ends s.workers
  comes : Comes scan answers s

section State

variable {scan : Scan} {answers : Answers} {s s' : State} {e : Event} {as : List Action}

theorem Working.comes (hphase : s.phase = .working) (h : Working scan answers s) : Comes scan answers s := by
  unfold Comes
  rw [hphase]
  exact h

theorem working_start (hresults : s.results = afterFirst scan answers) (hworkers : s.workers = []) :
    Working scan answers s := by
  refine ⟨?_, ?_, ?_⟩
  · intro i w hw
    rw [hworkers, List.getElem?_nil] at hw
    cases hw
  · rw [hresults]
    exact fun _ _ => rfl
  · rw [hworkers]
    exact Nat.zero_le _

/-- The end of a merge. -/
theorem merged_comes {final : Bool}
    (hfirst : final = false → s.results = afterFirst scan answers ∧ s.workers = [])
    (hlast : final = true → SameRecords s.results (sequential scan answers) ∧ s.completed = scan.range.count) :
    Comes scan answers (s.merged final) := by
  cases final with
  | false => exact working_start (hfirst rfl).1 (hfirst rfl).2
  | true => exact ⟨(hlast rfl).2, rfl, (hlast rfl).1⟩

theorem Working.take (hvalid : scan.Valid) (h : Working scan answers s) (hlt : s.workers.length < scan.range.count)
    (now : DateTimeOffset) :
    Working scan answers { s with workers := s.workers ++ [scan.start (scan.address s.workers.length) now] } := by
  have hlast : s.results.find (scan.address s.workers.length) =
      (afterFirst scan answers).find (scan.address s.workers.length) := by
    refine h.rest _ ?_
    intro i hi hsame
    have := address_inj hvalid hlt (by omega) hsame
    omega
  refine ⟨?_, ?_, ?_⟩
  · intro i w hw
    rcases getElem?_snoc_cases hw with hw | ⟨rfl, rfl⟩
    · exact h.workers i w hw
    · show OnTrack _ _ _ _ (s.results.find (scan.address s.workers.length))
      rw [hlast]
      exact start_onTrack now
  · intro address hne
    refine h.rest address ?_
    intro i hi
    exact hne i (by simp only [List.length_append, List.length_singleton]; omega)
  · simp only [List.length_append, List.length_singleton]
    omega

theorem Working.setWorker (h : Working scan answers s) {i : Nat} {w : Worker}
    (hw : OnTrack scan answers (scan.address i) w (s.results.find (scan.address i))) :
    Working scan answers (s.setWorker i w) := by
  refine ⟨?_, ?_, ?_⟩
  · intro j v hv
    rcases getElem?_set_cases hv with ⟨-, hv⟩ | ⟨rfl, rfl⟩
    · exact h.workers j v hv
    · exact hw
  · intro address hne
    refine h.rest address ?_
    intro j hj
    exact hne j (by simpa [State.setWorker] using hj)
  · simpa [State.setWorker] using h.taken

/-- Storing the record of one address: the other workers' records are as before. -/
theorem Working.store (hvalid : scan.Valid) (h : Working scan answers s) {i : Nat} {named : Bool} {d : DiscoveredDevice}
    (hw : s.workers[i]? = some (.storing named d)) :
    Working scan answers
      { s.setWorker i (afterPublish named d) with results := addOrUpdate s.results d } := by
  have hon := h.workers i _ hw
  have haddress : d.address = scan.address i := hon.holds d rfl
  have hlength (l : Nat) (hl : l < s.workers.length) : l < scan.range.count := Nat.lt_of_lt_of_le hl h.taken
  have hi := (List.getElem?_eq_some_iff.mp hw).1
  refine ⟨?_, ?_, ?_⟩
  · intro j v hv
    rcases getElem?_set_cases hv with ⟨hij, hv⟩ | ⟨rfl, rfl⟩
    · have hne : scan.address j ≠ d.address := by
        rw [haddress]
        intro hsame
        exact hij (address_inj hvalid (hlength i hi)
          (hlength j (List.getElem?_eq_some_iff.mp hv).1) hsame.symm)
      show OnTrack _ _ _ _ ((addOrUpdate s.results d).find (scan.address j))
      rw [find_addOrUpdate_ne _ hne]
      exact h.workers j v hv
    · show OnTrack _ _ _ _ ((addOrUpdate s.results d).find (scan.address i))
      rw [← haddress, find_addOrUpdate_self, haddress]
      exact publish_onTrack hon
  · intro address hne
    have hothers : ∀ j < s.workers.length, address ≠ scan.address j := fun j hj =>
      hne j (by simpa [State.setWorker] using hj)
    show (addOrUpdate s.results d).find address = _
    rw [find_addOrUpdate_ne _ (by rw [haddress]; exact hothers i hi)]
    exact h.rest address hothers
  · simpa [State.setWorker] using h.taken

/-- Once all workers have ended, the records are those of the reference. -/
theorem Working.done (hvalid : scan.Valid) (h : Working scan answers s) (hended : ∀ w ∈ s.workers, w = .ended)
    (hall : s.workers.length = scan.range.count) :
    SameRecords s.results (afterVisits scan answers scan.range.count) := by
  intro address
  by_cases hknown : ∃ i < s.workers.length, address = scan.address i
  · obtain ⟨i, hi, rfl⟩ := hknown
    have hw := List.getElem?_eq_getElem hi
    have hon := h.workers i _ hw
    rw [hended _ (List.getElem_mem hi)] at hon
    rw [find_afterVisits hvalid (Nat.le_refl _) (hall ▸ hi)]
    exact hon.ends
  · have hne : ∀ i < s.workers.length, address ≠ scan.address i := fun i hi hsame => hknown ⟨i, hi, hsame⟩
    rw [h.rest address hne, find_afterVisits_ne]
    rw [← hall]
    exact hne

theorem all_ended (hidle : s.workers.any Worker.isActive = false) (hthrew : s.workers.any (· = .threw) = false) :
    ∀ w ∈ s.workers, w = .ended := by
  intro w hw
  have hactive := List.any_eq_false.mp hidle w hw
  have halive := List.any_eq_false.mp hthrew w hw
  cases w <;> first | rfl | exact absurd rfl hactive | exact absurd rfl halive

theorem step_tracks (hvalid : scan.Valid) (hs : Tracks scan answers s) (hagrees : Agrees scan answers s e)
    (h : go scan s e = some (as, s')) : Tracks scan answers s' := by
  obtain ⟨hcancelled, hcompleted, hcomes⟩ := hs
  unfold Comes at hcomes
  cases go_change h with
  | cancel => exact hagrees.elim
  | neighborsReturn final entries hphase =>
    have hread := hagrees final hphase
    rw [hphase] at hcomes
    refine ⟨hcancelled, hcompleted, ?_⟩
    cases final with
    | false =>
      refine ⟨?_, hcomes.2⟩
      show mergeNeighbors scan s.results entries = _
      rw [hcomes.1, afterFirst, hread]
      rfl
    | true =>
      refine ⟨?_, hcomes.2⟩
      unfold sequential
      rw [hread]
      exact hcomes.1.merge entries
  | neighborsFail final isCancellation hphase =>
    have hread := hagrees final hphase
    rw [hphase] at hcomes
    refine ⟨hcancelled, hcompleted, merged_comes ?_ ?_⟩
    · rintro rfl
      refine ⟨?_, hcomes.2⟩
      rw [hcomes.1, afterFirst, hread]
      rfl
    · rintro rfl
      refine ⟨?_, hcomes.2⟩
      unfold sequential
      rw [hread]
      exact hcomes.1
  | neighborsCancelled _ _ _ hc => exact absurd hc (by simp [hcancelled])
  | merged final hphase =>
    rw [hphase] at hcomes
    refine ⟨hcancelled, hcompleted, merged_comes ?_ ?_⟩
    · rintro rfl
      exact hcomes
    · rintro rfl
      exact hcomes
  | malformed final entry entries hphase hbad =>
    rw [hphase] at hcomes
    refine ⟨hcancelled, hcompleted, merged_comes ?_ ?_⟩
    · rintro rfl
      simpa only [mergeNeighbors, hbad] using hcomes
    · rintro rfl
      simpa only [mergeNeighbors, hbad] using hcomes
  | skip final entry entries hphase hskip =>
    obtain hskip : scan.neighbor entry = .skipped := hskip.resolve_right (by simp [hcancelled])
    rw [hphase] at hcomes
    refine ⟨hcancelled, hcompleted, ?_⟩
    cases final <;>
      · simp only [mergeNeighbors, hskip] at hcomes
        exact hcomes
  | pick final entry entries device hphase husable =>
    rw [hphase] at hcomes
    refine ⟨hcancelled, hcompleted, ?_⟩
    cases final <;>
      · simp only [mergeNeighbors, husable] at hcomes
        exact hcomes
  | storeNeighbor final entry device entries hphase =>
    rw [hphase] at hcomes
    refine ⟨hcancelled, hcompleted, ?_⟩
    cases final <;> exact hcomes
  | take now hphase hlt =>
    rw [hphase] at hcomes
    refine ⟨hcancelled, ?_, ?_⟩
    · rw [weight_snoc]
      show s.completed = _ + (scan.start _ now).ends
      unfold Scan.start
      split <;> exact hcompleted
    · exact Working.comes hphase (Working.take hvalid hcomes hlt now)
  | move i w w' e as hphase hw hmoves =>
    rw [hphase] at hcomes
    have hon := moves_onTrack (hcomes.workers i w hw) hagrees hcancelled hmoves
    refine ⟨hcancelled, ?_, ?_⟩
    · -- it had not ended, and does not end by this step
      have hset := weight_set Worker.ends hw w'
      have hends := moves_ends hagrees hmoves
      show s.completed = weight Worker.ends (s.workers.set i w')
      omega
    · exact Working.comes hphase (hcomes.setWorker hon)
  | store i named device hphase hw =>
    rw [hphase] at hcomes
    refine ⟨hcancelled, ?_, ?_⟩
    · have hset := weight_set Worker.ends hw (afterPublish named device)
      have hends : (afterPublish named device).ends = 0 := by cases named <;> rfl
      have hbefore : (Worker.storing named device).ends = 0 := rfl
      show s.completed = weight Worker.ends (s.workers.set i _)
      omega
    · exact Working.comes hphase (hcomes.store hvalid hw)
  | report i hphase hw =>
    rw [hphase] at hcomes
    have hon := hcomes.workers i _ hw
    refine ⟨hcancelled, ?_, ?_⟩
    · have hset := weight_set Worker.ends hw .ended
      have hended : Worker.ended.ends = 1 := rfl
      have hbefore : Worker.reporting.ends = 0 := rfl
      show s.completed + 1 = weight Worker.ends (s.workers.set i _)
      omega
    · have hset := hcomes.setWorker (w := .ended) ⟨hon.ends, nofun, nofun, nofun⟩
      exact Working.comes hphase ⟨hset.workers, hset.rest, hset.taken⟩
  | fail hphase hfail =>
    rw [hphase] at hcomes
    rcases hfail with hc | hthrew
    · exact absurd hc (by simp [hcancelled])
    · obtain ⟨w, hm, hw⟩ := List.any_eq_true.mp hthrew
      obtain ⟨i, hi⟩ := List.mem_iff_getElem?.mp hm
      exact absurd (of_decide_eq_true hw) (hcomes.workers i w hi).alive
  | join hphase hidle hthrew hall =>
    rw [hphase] at hcomes
    have hended := all_ended hidle hthrew
    have hdone := Working.done hvalid (show Working scan answers s from hcomes) hended hall
    refine ⟨hcancelled, hcompleted, hdone, ?_⟩
    show s.completed = _
    rw [hcompleted, ← hall]
    refine weight_one ?_
    intro w hw
    rw [hended w hw]
    rfl

end State

/-! ## The scan ends -/

/-- Steps that a worker still takes, at most. -/
def Worker.rank : Worker → Nat
  | .pinging => 10
  | .lookingUp _ _ => 9
  | .resolving _ _ => 8
  | .gathering _ _ _ => 7
  | .publishing named _ => if named then 3 else 6
  | .storing named _ => if named then 2 else 5
  | .naming _ => 4
  | .reporting => 1
  | .ended | .threw => 0

/-- The length of a read. -/
def Answers.length (answers : Answers) (final : Bool) : Nat := ((answers.neighbors final).getD []).length

/-- Steps outside the workers that are still to come, at most. -/
def Phase.rank (answers : Answers) : Phase → Nat
  | .reading false => 2 * answers.length true + 2 * answers.length false + 5
  | .storing false _ _ entries => 2 * answers.length true + 2 * entries.length + 5
  | .merging false entries => 2 * answers.length true + 2 * entries.length + 4
  | .working => 2 * answers.length true + 3
  | .reading true => 2 * answers.length true + 2
  | .storing true _ _ entries => 2 * entries.length + 2
  | .merging true entries => 2 * entries.length + 1
  | .returned _ _ | .threw => 0

def State.rank (scan : Scan) (answers : Answers) (s : State) : Nat :=
  s.phase.rank answers + weight Worker.rank s.workers + 11 * (scan.range.count - s.workers.length)

/-- The most steps that a scan takes. -/
def stepLimit (scan : Scan) (answers : Answers) : Nat :=
  2 * answers.length true + 2 * answers.length false + 5 + 11 * scan.range.count

section Rank

variable {scan : Scan} {answers : Answers} {s s' : State} {e : Event} {as : List Action}

theorem moves_rank {i : Nat} {w w' : Worker} (hagrees : Agrees scan answers s e) (h : Moves scan s i w e as w') :
    w'.rank < w.rank := by
  cases h with
  | ping reply now =>
    unfold afterPing
    split <;> simp [Worker.rank]
  | lookUp evidence live =>
    unfold lookUp
    split
    · split <;> simp [Worker.rank]
    · simp [Worker.rank]
  | resolve => simp [afterResolve, Worker.rank]
  | gather =>
    unfold Scan.gather
    split <;> simp [Worker.rank]
  | check named =>
    unfold afterPublish
    cases named <;> split <;> simp [Worker.rank]
  | name =>
    unfold afterName
    split <;> simp [Worker.rank]
  | throws => exact hagrees.elim

theorem start_rank (scan : Scan) (address : Str) (now : DateTimeOffset) : (scan.start address now).rank ≤ 10 := by
  unfold Scan.start
  split <;> simp [Worker.rank]

/-- A worker's step lowers its rank, and with it the sum. -/
theorem setWorker_rank {i : Nat} {w : Worker} (w' : Worker) (hphase : s.phase = .working) (hw : s.workers[i]? = some w)
    (hlower : w'.rank < w.rank) : (s.setWorker i w').rank scan answers < s.rank scan answers := by
  have hset := weight_set Worker.rank hw w'
  simp only [State.rank, State.setWorker, List.length_set, hphase]
  omega

theorem merged_rank (final : Bool) (h : ∃ entries, s.phase = .merging final entries ∨ s.phase = .reading final) :
    (s.merged final).rank scan answers < s.rank scan answers := by
  obtain ⟨entries, hphase | hphase⟩ := h
  · cases final <;> simp only [State.rank, State.merged, hphase, Phase.rank, Bool.false_eq_true, if_true, if_false] <;> omega
  · cases final <;> simp only [State.rank, State.merged, hphase, Phase.rank, Bool.false_eq_true, if_true, if_false] <;> omega

theorem step_rank (hagrees : Agrees scan answers s e) (h : go scan s e = some (as, s')) :
    s'.rank scan answers < s.rank scan answers := by
  cases go_change h with
  | cancel => exact hagrees.elim
  | neighborsReturn final entries hphase =>
    have hread := hagrees final hphase
    have hlength : answers.length final = entries.length := by rw [Answers.length, hread]; rfl
    cases final <;> simp only [State.rank, hphase, Phase.rank, hlength] <;> omega
  | neighborsFail final _ hphase => exact merged_rank final ⟨[], Or.inr hphase⟩
  | neighborsCancelled final _ hphase _ =>
    cases final <;> simp only [State.rank, hphase, Phase.rank] <;> omega
  | merged final hphase => exact merged_rank final ⟨_, Or.inl hphase⟩
  | malformed final _ _ hphase _ => exact merged_rank final ⟨_, Or.inl hphase⟩
  | skip final entry entries hphase _ =>
    cases final <;> simp only [State.rank, hphase, Phase.rank, List.length_cons] <;> omega
  | pick final entry entries device hphase _ =>
    cases final <;> simp only [State.rank, hphase, Phase.rank, List.length_cons] <;> omega
  | storeNeighbor final entry device entries hphase =>
    cases final <;> simp only [State.rank, hphase, Phase.rank] <;> omega
  | take now hphase hlt =>
    have hstart := start_rank scan (scan.address s.workers.length) now
    simp only [State.rank, weight_snoc, List.length_append, List.length_singleton]
    omega
  | move i w w' e as hphase hw hmoves => exact setWorker_rank w' hphase hw (moves_rank hagrees hmoves)
  | store i named device hphase hw =>
    refine setWorker_rank (afterPublish named device) hphase hw ?_
    cases named <;> simp [afterPublish, Worker.rank]
  | report i hphase hw => exact setWorker_rank .ended hphase hw (by simp [Worker.rank])
  | fail hphase _ =>
    simp only [State.rank, hphase, Phase.rank]
    omega
  | join hphase _ _ _ =>
    simp only [State.rank, hphase, Phase.rank]
    omega

/-- An event that the answers allow and that is possible. -/
def CanGo (scan : Scan) (answers : Answers) (s : State) : Prop :=
  ∃ e, Agrees scan answers s e ∧ ((scanning scan).step s e).isSome = true

theorem worker_go {i : Nat} {w : Worker} (hphase : s.phase = .working) (hw : s.workers[i]? = some w)
    (hactive : w.isActive = true) : CanGo scan answers s := by
  have hgo (e : Event) (he : e.offset = some i) (hagrees : Agrees scan answers s e)
      (hstep : (goWorker scan s i w e).isSome = true) : CanGo scan answers s := by
    refine ⟨e, hagrees, ?_⟩
    have heq : go scan s e = goWorker scan s i w e := by
      cases e <;> first | (cases he; simp only [go, Event.offset, hphase, hw, if_true]; rfl) | cases he
    show ((go scan s e).map Prod.snd).isSome = true
    rw [heq, Option.isSome_map]
    exact hstep
  cases w with
  | pinging => exact hgo (.pingReturns i _ epoch) rfl rfl rfl
  | lookingUp => exact hgo (.lookUp i) rfl trivial rfl
  | resolving => exact hgo (.resolveReturns i _) rfl rfl rfl
  | gathering => exact hgo (.gather i) rfl trivial rfl
  | publishing => exact hgo (.check i) rfl trivial rfl
  | storing => exact hgo (.store i) rfl trivial rfl
  | naming => exact hgo (.nameReturns i _) rfl rfl rfl
  | reporting => exact hgo (.report i) rfl trivial rfl
  | ended => cases hactive
  | threw => cases hactive

theorem tracks_go (hconcurrency : 0 < scan.concurrency) (hs : Tracks scan answers s)
    (hrunning : ∀ scanned found, s.phase ≠ .returned scanned found) : CanGo scan answers s := by
  obtain ⟨hcancelled, -, hcomes⟩ := hs
  unfold Comes at hcomes
  have hstep (e : Event) (hagrees : Agrees scan answers s e) {r : List Action × State} (h : go scan s e = some r) :
      CanGo scan answers s := ⟨e, hagrees, by show ((go scan s e).map Prod.snd).isSome = true; rw [h]; rfl⟩
  cases hphase : s.phase with
  | reading final =>
    have hone {f : Bool} (hf : s.phase = .reading f) : final = f := Phase.reading.inj (hphase.symm.trans hf)
    cases hread : answers.neighbors final with
    | some entries =>
      refine hstep (.neighborsReturn entries) ?_ (by simp only [go, Event.offset, goMerge, hphase]; rfl)
      intro f hf
      rw [← hone hf, hread]
    | none =>
      refine hstep (.neighborsThrow false) ?_ (by simp only [go, Event.offset, goMerge, hphase]; rfl)
      intro f hf
      rw [← hone hf, hread]
  | merging final entries =>
    cases entries with
    | nil => exact hstep .merge trivial (by simp only [go, Event.offset, goMerge, hphase]; rfl)
    | cons entry entries =>
      cases hneighbor : scan.neighbor entry with
      | skipped => exact hstep .merge trivial (by simp only [go, Event.offset, goMerge, hphase, hneighbor]; rfl)
      | malformed => exact hstep .merge trivial (by simp only [go, Event.offset, goMerge, hphase, hneighbor]; rfl)
      | usable device =>
        refine hstep (r := ([], { s with phase := .storing final entry device entries })) .merge trivial ?_
        simp [go, Event.offset, goMerge, hphase, hneighbor, hcancelled]
  | storing final entry device entries =>
    exact hstep .storeNeighbor trivial (by simp only [go, Event.offset, goMerge, hphase]; rfl)
  | working =>
    rw [hphase] at hcomes
    by_cases hactive : s.workers.any Worker.isActive = true
    · obtain ⟨w, hm, hw⟩ := List.any_eq_true.mp hactive
      obtain ⟨i, hi⟩ := List.mem_iff_getElem?.mp hm
      exact worker_go hphase hi hw
    · by_cases hlt : s.workers.length < scan.range.count
      · have hidle : s.workers.filter Worker.isActive = [] := by
          refine List.filter_eq_nil_iff.mpr ?_
          intro w hw hactive'
          exact hactive (List.any_eq_true.mpr ⟨w, hw, hactive'⟩)
        refine hstep (.take epoch) trivial (if_pos ⟨hphase, hlt, ?_⟩)
        rw [hidle]
        exact hconcurrency
      · have hall : s.workers.length = scan.range.count := Nat.le_antisymm hcomes.taken (Nat.le_of_not_lt hlt)
        exact hstep .join trivial (if_pos ⟨hphase, hactive, Or.inr (Or.inr hall)⟩)
  | returned scanned found => exact absurd hphase (hrunning scanned found)
  | threw =>
    rw [hphase] at hcomes
    exact hcomes.elim

end Rank

/-! ## Runs -/

/-- ARP was asked only where the cache gave no usable MAC, and never for the interface itself. -/
def AsksArp (scan : Scan) (answers : Answers) (as : List Action) : Prop :=
  ∀ address, .resolving address ∈ as →
    address ≠ scan.interface.address ∧ answers.cached scan false address = false

section Runs

variable {scan : Scan} {answers : Answers} {log : Log} {s s' : State} {e : Event} {as : List Action}

theorem step_asksArp (hvalid : scan.Valid) (hcanonical : answers.Canonical) (hs : Tracks scan answers s)
    (h : go scan s e = some (as, s')) : AsksArp scan answers as := by
  intro address hm
  cases go_change h with
  | move i w w' e as hphase hw hmoves =>
    have hworking : Working scan answers s := by
      have hcomes := hs.comes
      unfold Comes at hcomes
      rw [hphase] at hcomes
      exact hcomes
    cases hmoves with
    | lookUp evidence live =>
      split at hm
      · rename_i hresolving
        obtain rfl : address = scan.address i := Action.resolving.inj (List.mem_singleton.mp hm)
        obtain ⟨hcell, hremote⟩ := (hworking.workers i _ hw).early rfl
        refine ⟨hremote, ?_⟩
        have hlt := Nat.lt_of_lt_of_le (List.getElem?_eq_some_iff.mp hw).1 hworking.taken
        rw [← find_afterFirst_none hcanonical (covers_address hvalid hlt)]
        -- a stored MAC is usable, and then ARP is not asked
        rw [hcell] at hresolving
        rcases hfirst : (afterFirst scan answers).find (scan.address i) with _ | cached
        · rfl
        · rw [hfirst, lookUp, if_pos (usableMac_afterFirst cached hfirst)] at hresolving
          cases hresolving
      · cases hm
    | ping reply now => cases List.mem_singleton.mp hm
    | _ => cases hm
  | storeNeighbor => cases List.mem_singleton.mp hm
  | store => cases List.mem_singleton.mp hm
  | _ => cases hm

theorem runs_track (hvalid : scan.Valid) (hcanonical : answers.Canonical) (h : (scanning scan).Runs log s) :
    Machine.Throughout (Agrees scan answers) log → Tracks scan answers s ∧ AsksArp scan answers (actions scan log) := by
  refine h.log_inv (I := fun log s => Machine.Throughout (Agrees scan answers) log →
    Tracks scan answers s ∧ AsksArp scan answers (actions scan log)) ?_ ?_
  · intro s hs _
    cases hs
    exact ⟨⟨rfl, rfl, rfl, rfl⟩, nofun⟩
  · intro log s e s' _ ih hstep hok
    obtain ⟨hlog, hagrees⟩ := (Machine.throughout_snoc _ _ _ _).mp hok
    obtain ⟨htracks, hasks⟩ := ih hlog
    obtain ⟨⟨as, _⟩, hgo, rfl⟩ := Option.map_eq_some_iff.mp hstep
    refine ⟨step_tracks hvalid htracks hagrees hgo, ?_⟩
    rw [actions_snoc scan log hgo]
    intro address hm
    exact (List.mem_append.mp hm).elim (hasks address) (step_asksArp hvalid hcanonical htracks hgo address)

theorem runs_length (h : (scanning scan).Runs log s) (hok : Machine.Throughout (Agrees scan answers) log) :
    log.length ≤ stepLimit scan answers := by
  have hbound := h.length_le (State.rank scan answers) (stepLimit scan answers) ?_ ?_ hok
  · omega
  · intro s hs
    cases hs
    simp [State.rank, Phase.rank, stepLimit, weight]
  · intro s e s' hagrees hstep
    obtain ⟨⟨as, _⟩, hgo, rfl⟩ := Option.map_eq_some_iff.mp hstep
    exact step_rank hagrees hgo

/-- The same addresses, so as many records. -/
theorem SameRecords.length {results results' : Results} (h : SameRecords results results') :
    results.rows.length = results'.rows.length := by
  have hkeys (r : Results) (address : Str) : address ∈ r.rows.map (·.address) ↔ r.find address ≠ none := by
    rw [ne_eq, Table.find_none_iff]
    simp
  have hperm : (results.rows.map (·.address)).Perm (results'.rows.map (·.address)) := by
    refine (List.perm_ext_iff_of_nodup results.nodup results'.nodup).mpr ?_
    intro address
    rw [hkeys, hkeys]
    have hsame := h address
    cases hr : results.find address <;> cases hr' : results'.find address <;> simp [hr, hr'] at hsame ⊢
  simpa using hperm.length_eq

end Runs

theorem beginScan_request {vendorLookup : Option (Str → Option Str)} {request : DiscoveryRequest}
    {current : List LocalNetworkInterface} {scan : Scan} (h : beginScan vendorLookup request current = .ok scan) :
    scan.interface = request.interface ∧ 0 < scan.concurrency := by
  obtain ⟨range, hrange, h⟩ := bind_ok_iff.mp h
  obtain ⟨-, h⟩ := throwIf_bind_ok_iff.mp h
  cases h
  obtain ⟨hconcurrency, -⟩ := DiscoveryRequest.validate_ok hrange
  exact ⟨rfl, by show 0 < request.concurrency.toNat; omega⟩

/-- Take an accepted request, reads of the neighbour cache in canonical form, and probes
    that answer by address. In every uncancelled run, whatever the concurrency and the
    order of the workers: the scan does not throw, takes at most `stepLimit` steps, and
    until it has returned it can go on. When it has returned, it has scanned the whole
    range, and its records are those of the reference, up to their times: one for each
    address of the range that some source knows, with the evidence of just these sources;
    and ARP was asked only for other hosts that the first read has no usable MAC of. -/
theorem concurrent_scan_is_sequential (vendorLookup : Option (Str → Option Str)) (request : DiscoveryRequest)
    (current : List LocalNetworkInterface) (scan : Scan) (hbegin : beginScan vendorLookup request current = .ok scan)
    (answers : Answers) (hcanonical : answers.Canonical) (log : Log) (s : State) (h : (scanning scan).Runs log s)
    (hagrees : Machine.Throughout (Agrees scan answers) log) :
    s.phase ≠ .threw ∧ log.length ≤ stepLimit scan answers ∧
    ((∀ scanned found, s.phase ≠ .returned scanned found) → CanGo scan answers s) ∧
    ∀ scanned found, s.phase = .returned scanned found →
      scanned = scan.range.last.toNat - scan.range.first.toNat + 1 ∧
      found = s.results.rows.length ∧ found = (sequential scan answers).rows.length ∧
      SameRecords s.results (sequential scan answers) ∧
      (∀ address, s.results.find address ≠ none ↔ scan.covers address ∧
        (answers.cached scan false address = true ∨ answers.cached scan true address = true ∨
          answers.ping address = true ∨ isAnswer (answers.resolve address) = true ∨
          address = request.interface.address)) ∧
      (∀ d ∈ s.results.rows, d.evidence = answers.evidence scan d.address) ∧
      ∀ address, .resolving address ∈ actions scan log →
        address ≠ request.interface.address ∧ answers.cached scan false address = false := by
  have hvalid := beginScan_valid hbegin
  obtain ⟨hinterface, hconcurrency⟩ := beginScan_request hbegin
  obtain ⟨htracks, hasks⟩ := runs_track hvalid hcanonical h hagrees
  have hcomes := htracks.comes
  unfold Comes at hcomes
  rw [← hinterface]
  refine ⟨?_, runs_length h hagrees, tracks_go hconcurrency htracks, ?_⟩
  · intro hthrew
    rw [hthrew] at hcomes
    exact hcomes
  · intro scanned found hphase
    rw [hphase] at hcomes
    obtain ⟨hscanned, hfound, hsame⟩ := hcomes
    have hnone (address : Str) : s.results.find address = none ↔ (sequential scan answers).find address = none := by
      have := hsame address
      cases hr : s.results.find address <;> cases hr' : (sequential scan answers).find address <;> simp [hr, hr'] at this ⊢
    refine ⟨hscanned.trans hvalid.2, hfound, hfound.trans hsame.length, hsame, ?_, ?_, hasks⟩
    · intro address
      rw [ne_eq, hnone, ← ne_eq, find_sequential hvalid hcanonical, evidence_ne_none]
    · intro d hd
      have hfind : s.results.find d.address = some d := (Table.find_some_iff _ _ _).mpr ⟨hd, rfl⟩
      have hkey := hsame d.address
      rw [hfind] at hkey
      rcases hseq : (sequential scan answers).find d.address with _ | r
      · rw [hseq] at hkey
        cases hkey
      · rw [hseq] at hkey
        have hfound : (sequential scan answers).find d.address ≠ none := by
          rw [hseq]
          exact Option.some_ne_none r
        have hcovers := ((find_sequential hvalid hcanonical).mp hfound).1
        obtain ⟨hevidence, -⟩ := evidence_sequential hvalid hcanonical hcovers
        rw [hseq] at hevidence
        exact (congrArg DiscoveredDevice.evidence (Option.some.inj hkey)).trans hevidence

/-- The answers of the small scan. -/
def smallAnswers : Answers where
  neighbors final := if final then none else some [⟨7, str "10.0.0.2", str "00:11:22:33:44:02"⟩]
  ping address := address = str "10.0.0.2"
  resolve _ := none
  name address := if address = str "10.0.0.2" then some (str "nas") else none

instance (scan : Scan) (answers : Answers) (s : State) (e : Event) : Decidable (Agrees scan answers s e) := by
  cases e <;> unfold Agrees <;> infer_instance

theorem smallAnswers_canonical : smallAnswers.Canonical := by
  intro final entries h entry he
  cases final with
  | true => cases h
  | false =>
    cases h
    exact ⟨0x0A000002, by rw [List.mem_singleton.mp he]; rfl⟩

theorem small_scan_is_sequential : ∃ log s, (scanning smallScan).Runs log s ∧ s.phase = .returned 2 2 ∧
    SameRecords s.results (sequential smallScan smallAnswers) := by
  obtain ⟨log, s, h, hagrees, hreturns⟩ := Machine.exists_run (scanning smallScan) (Agrees smallScan smallAnswers)
    (fun s => s.phase = .returned 2 2) smallScanEvents rfl (by decide +kernel)
  have hphase : s.phase = .returned 2 2 := of_decide_eq_true hreturns
  obtain ⟨-, -, -, hreturned⟩ := concurrent_scan_is_sequential none twoAddresses [ethernet] smallScan smallScan_begins
    smallAnswers smallAnswers_canonical log s h hagrees
  obtain ⟨-, -, -, hsame, -⟩ := hreturned 2 2 hphase
  exact ⟨log, s, h, hphase, hsame⟩

end MythLab.Discovery.NetworkDiscoveryService
