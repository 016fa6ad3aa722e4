import Netperf.Pair
import Netperf.Notices
/-!
# The exchange of results

Both controllers leave their loops on `ExchangeResults` and read the control
socket directly. The client has then read exactly the states the server
announced, and the server reads nothing before, so each one's first direct read
meets the results of the other.
-/

namespace Netperf

open Maps Runs Lists

/-! ## The client -/

namespace ClientTest

/-- The last message the client heard tells it to exchange results. -/
def Told (t : ClientTest) : Prop :=
  ∃ got, .setState .exchangeResults ∉ got ∧ t.heard = got ++ [.setState .exchangeResults]

/-- Nothing told the client to exchange results yet. -/
def Untold (t : ClientTest) : Prop := .setState .exchangeResults ∉ t.heard ∧ t.sent = []

/-- Where the client is, what it has heard, and what it has sent. -/
def Stage (t : ClientTest) : Prop :=
  match t.pc with
  | .storingState s => if s = .exchangeResults then Told t ∧ t.sent = [] else Untold t
  | .loopTop => if t.state = .exchangeResults then Told t ∧ t.sent = [] else Untold t
  | .collecting _ => Told t ∧ t.sent = []
  | .sendingResults results => Told t ∧ t.sent = [] ∧ results = ⟨t.streamResults⟩
  | .readingResults results => Told t ∧ t.sent = [.sendResults results] ∧ results = ⟨t.streamResults⟩
  | .returned (some (results, remote)) =>
    (∃ got, .setState .exchangeResults ∉ got ∧
      t.heard = got ++ [.setState .exchangeResults, .sendResults remote]) ∧
    t.sent = [.sendResults results] ∧ results = ⟨t.streamResults⟩
  | .returned none => t.sent = [] ∨ t.sent = [.sendResults ⟨t.streamResults⟩]
  | _ => t.state ≠ .exchangeResults ∧ Untold t

variable {t u : ClientTest} {e : ClientEvent}

/-- The client writes nothing but its results. -/
theorem Stage.sent (h : Stage t) : t.sent = [] ∨ t.sent = [.sendResults ⟨t.streamResults⟩] := by
  unfold Stage at h
  split at h
  · split at h
    · exact .inl h.2
    · exact .inl h.2
  · split at h
    · exact .inl h.2
    · exact .inl h.2
  · exact .inl h.2
  · exact .inl h.2.1
  · exact .inr (h.2.2 ▸ h.2.1)
  · exact .inr (h.2.2 ▸ h.2.1)
  · exact h
  · exact .inl h.2.2

theorem stage_collectNext (pending : Map StreamWorkerRef) (ht : Told t) (hs : t.sent = []) :
    Stage (t.collectNext pending) := by
  by_cases hc : len pending = 0
  · simp only [Stage, collectNext, if_pos hc]
    exact ⟨ht, hs, trivial⟩
  · simp only [Stage, collectNext, if_neg hc]
    exact ⟨ht, hs⟩

theorem stage_createStreams (hst : t.state ≠ .exchangeResults) (h : Untold t) : Stage t.createStreams := by
  by_cases hc : len t.streams < t.totalNeededStreams
  · simp only [Stage, createStreams, if_pos hc]
    exact ⟨hst, h⟩
  · simp only [Stage, createStreams, if_neg hc]
    exact ⟨hst, h⟩

/-- Hearing a message that does not end the loop. -/
theorem Untold.hear (h : Untold t) {m : ServerMessage} (hm : m ≠ .setState .exchangeResults) (pc : ClientPc) :
    Untold { t with received := t.received ++ [Except.ok m], pc := pc } := by
  refine ⟨?_, h.2⟩
  rw [heard_read]
  intro hmem
  rcases List.mem_append.1 hmem with hmem | hmem
  · exact h.1 hmem
  · exact hm (List.mem_singleton.1 hmem).symm

theorem stage_step (h : Step t e u) (hi : Stage t) : Stage u := by
  have hsent := hi.sent
  cases h with
  | start hpc =>
    simp only [Stage, hpc] at hi ⊢
    rw [if_neg hi.1]
    exact hi.2
  | create hpc hs =>
    simp only [Stage, hpc, hs, reduceCtorEq, if_false] at hi
    exact stage_createStreams (by simp [hs]) hi
  | startLoad hpc hs =>
    simp only [Stage, hpc, hs, reduceCtorEq, if_false] at hi
    exact ⟨by simp [hs], hi⟩
  | select hpc hs =>
    have hne : t.state ≠ .exchangeResults := by
      rcases hs with hs | ⟨hs, -⟩ | hs <;> simp [hs]
    simp only [Stage, hpc, if_neg hne] at hi
    exact ⟨hne, hi⟩
  | finish hpc hs =>
    simp only [Stage, hpc, hs, if_true] at hi
    exact stage_collectNext _ hi.1 hi.2
  | store hpc =>
    simp only [Stage, hpc] at hi ⊢
    exact hi
  | terminated hpc =>
    simp only [Stage, hpc] at hi ⊢
    exact hi
  | unknown hpc =>
    simp only [Stage, hpc] at hi ⊢
    rw [if_neg hi.1]
    exact hi.2
  | @told s hpc =>
    simp only [Stage, hpc] at hi ⊢
    obtain ⟨-, hu⟩ := hi
    split
    · rename_i hs
      subst hs
      exact ⟨⟨_, hu.1, heard_read _ _ _⟩, hu.2⟩
    · rename_i hs
      exact hu.hear (by simpa using hs) _
  | surprised hpc hm =>
    simp only [Stage, hpc] at hi ⊢
    rw [if_neg hi.1]
    exact hi.2.hear (hm _) _
  | readResults hpc =>
    simp only [Stage, hpc] at hi ⊢
    obtain ⟨⟨got, hgot, hheard⟩, hs, hres⟩ := hi
    refine ⟨⟨got, hgot, ?_⟩, hs, hres⟩
    rw [heard_read, hheard, List.append_assoc]
    rfl
  | joined hpc =>
    simp only [Stage, hpc] at hi ⊢
    rw [if_neg (by simpa using hi.1)]
    exact hi.2
  | collected hpc =>
    simp only [Stage, hpc] at hi
    exact stage_collectNext _ hi.1 hi.2
  | timedOut hpc =>
    simp only [Stage, hpc] at hi
    exact stage_collectNext _ hi.1 hi.2
  | connected hpc =>
    simp only [Stage, hpc] at hi
    exact stage_createStreams hi.1 hi.2
  | sentResults hpc =>
    simp only [Stage, hpc] at hi ⊢
    obtain ⟨ht, hs, hres⟩ := hi
    exact ⟨ht, by simp [hs], hres⟩
  | worker hw =>
    unfold Stage at *
    simp only [workerStep_test hw, TestController.workerStep_results hw]
    exact hi
  | _ => exact hsent

end ClientTest

/-! ## The server -/

namespace ServerTest

/-- Where the server is, what it has read, and which results it sends. -/
def Stage (t : ServerTest) : Prop :=
  match t.pc with
  | .readingResults results => t.received = [] ∧ results = ⟨t.streamResults⟩
  | .sendingResults results remote =>
    (∀ r, remote = some r → t.received = [.sendResults r]) ∧ results = ⟨t.streamResults⟩
  | .returned (some (results, remote)) => t.received = [.sendResults remote] ∧ results = ⟨t.streamResults⟩
  | .returned none => ∀ results, .sendResults results ∈ t.sent → results = ⟨t.streamResults⟩
  | _ => t.received = []

variable {t u : ServerTest} {e : ServerEvent}

/-- The results the server wrote are those it computed. -/
theorem Stage.results (h : Stage t) (hs : Said t) {results : TestResults} (hm : .sendResults results ∈ t.sent) :
    results = ⟨t.streamResults⟩ := by
  unfold Said at hs
  split at hs
  · exact absurd hm (hs.no_results results)
  · rename_i hpc
    simp only [Stage, hpc] at h
    obtain ⟨ms, hms, hsent⟩ := hs
    rw [hsent] at hm
    rcases List.mem_append.1 hm with hm | hm
    · exact absurd hm (hms.no_results results)
    · rw [← h.2]
      exact ServerMessage.sendResults.inj (List.mem_singleton.1 hm)
  · rename_i hpc
    simp only [Stage, hpc] at h
    exact h results hm
  · exact absurd hm (hs.no_results results)

theorem stage_acceptStream (s : Nat) (h : t.received = []) : Stage (t.acceptStream s) := by
  by_cases hc : len (t.createAndRegisterStreamWorker s).streams = t.totalNeededStreams
  · simpa only [Stage, acceptStream, if_pos hc] using h
  · simpa only [Stage, acceptStream, if_neg hc] using h

theorem stage_afterTermination (h : t.received = []) : Stage t.afterTermination := by
  by_cases hc : len t.streams = 0
  · simpa only [Stage, afterTermination, if_pos hc] using h
  · simpa only [Stage, afterTermination, if_neg hc] using h

theorem stage_collectNext (pending : Map StreamWorkerRef) (h : t.received = []) : Stage (t.collectNext pending) := by
  by_cases hc : len pending = 0
  · simp only [Stage, collectNext, if_pos hc]
    exact ⟨h, trivial⟩
  · simpa only [Stage, collectNext, if_neg hc] using h

theorem stage_step (h : Step t e u) (hs : Said t) (hi : Stage t) : Stage u := by
  have hres : ∀ results, .sendResults results ∈ t.sent → results = ⟨t.streamResults⟩ := fun _ => hi.results hs
  cases h with
  | start _ hpc | announce _ hpc | startLoad _ hpc | wait _ hpc | writeIgnored hpc | terminated hpc | store _ hpc
  | wrote hpc =>
    simp only [Stage, hpc] at hi ⊢
    exact hi
  | finish _ hpc =>
    simp only [Stage, hpc] at hi
    exact stage_collectNext _ hi
  | accept hpc =>
    simp only [Stage, hpc] at hi
    exact stage_acceptStream _ hi
  | unknown hpc | joined hpc =>
    simp only [Stage, hpc] at hi
    exact stage_afterTermination hi
  | collected hpc | timedOut hpc =>
    simp only [Stage, hpc] at hi
    exact stage_collectNext _ hi
  | readResults hpc =>
    simp only [Stage, hpc] at hi ⊢
    obtain ⟨hr, hl⟩ := hi
    refine ⟨?_, hl⟩
    rintro _ ⟨⟩
    simp [hr]
  | readOther hpc =>
    simp only [Stage, hpc] at hi ⊢
    exact ⟨by simp, hi.2⟩
  | @sentResults results remote hpc =>
    simp only [Stage, hpc] at hi
    obtain ⟨hr, hl⟩ := hi
    cases remote with
    | some r => exact ⟨hr r rfl, hl⟩
    | none =>
      intro results' hm
      rcases List.mem_append.1 hm with hm | hm
      · exact hres results' hm
      · exact (ServerMessage.sendResults.inj (List.mem_singleton.1 hm)).trans hl
  | worker hw =>
    unfold Stage at *
    simp only [TestController.workerStep_results hw]
    exact hi
  | guard | unguard | offer | vanish => exact hi
  | writeFailed | sendFailed | joinFailed | readFailed => exact hres

end ServerTest

/-! ## Both -/

namespace Pair
variable {p q : Pair} {e : PairEvent} {cookie : String} {params : TestParameters}

/-- What goes over the control connection, and where its two ends are. -/
structure Exchanging (p : Pair) : Prop extends Linked p where
  server : p.server.Stage
  client : p.client.Stage

theorem exchanging_step (h : Step p e q) (hi : Exchanging p) : Exchanging q := by
  have hl := linked_step h hi.toLinked
  cases h with
  | server _ hs => exact ⟨hl, ServerTest.stage_step hs hi.said hi.server, hi.client⟩
  | client _ hs => exact ⟨hl, hi.server, ClientTest.stage_step hs hi.client⟩

theorem exchanging_reach (h : Reach step (new cookie params) p) : Exchanging p := by
  refine h.inv Exchanging ⟨linked_reach .refl, rfl, ?_⟩ (fun _ _ _ hi hs => exchanging_step (step_cases hs) hi)
  exact ⟨by simp [new, ClientTest.new, TestController.new, PerfTest.new], by simp [new, ClientTest.new, ClientTest.heard],
    rfl⟩

/-- A client that heard `ExchangeResults` has heard every state; only results
follow. -/
theorem Linked.after (hl : Linked p) {got xs : List ServerMessage} (hg : .setState .exchangeResults ∉ got)
    (hh : p.client.heard = got ++ .setState .exchangeResults :: xs) :
    ∃ ys, p.server.sent = got ++ .setState .exchangeResults :: ys ∧ xs <+: ys ∧
      (ys = [] ∨ ∃ results, ys = [.sendResults results]) := by
  obtain ⟨s, ms, hms, hsent⟩ := hl.said.script
  have hpre := hl.heard
  rw [hh] at hpre
  have hs : s = .exchangeResults := by
    rcases hsent with hsent | ⟨hs, -⟩
    · by_contra hs
      apply hms.not_ended hs
      rw [← hsent]
      exact hpre.subset (by simp)
    · exact hs
  subst hs
  obtain ⟨pre, hne, rfl⟩ := hms.ended
  rcases hsent with hsent | ⟨-, results, hsent⟩
  · rw [hsent] at hpre ⊢
    obtain ⟨rfl, hxs⟩ := prefix_split hpre hg hne
    exact ⟨[], rfl, hxs, .inl rfl⟩
  · rw [hsent, List.append_assoc] at hpre ⊢
    obtain ⟨rfl, hxs⟩ := prefix_split hpre hg hne
    exact ⟨[.sendResults results], rfl, hxs, .inr ⟨results, rfl⟩⟩

/-- The client is told to exchange results before it is sent any. -/
theorem Linked.before (hl : Linked p) (hu : .setState .exchangeResults ∉ p.client.heard) {m : ServerMessage}
    (hm : p.toClient = some m) : ∃ s, m = .setState s := by
  obtain ⟨s, ms, hms, hsent⟩ := hl.said.script
  have hmem := List.mem_of_getElem? hm
  rcases hsent with hsent | ⟨rfl, results, hsent⟩
  · exact hms.states (hsent ▸ hmem)
  obtain ⟨pre, hne, hpre⟩ := hms.ended
  by_cases hlt : p.client.heard.length < ms.length
  · rw [toClient, hsent, List.getElem?_append_left hlt] at hm
    exact hms.states (List.mem_of_getElem? hm)
  · -- it has heard all states already
    have hall : ms <+: p.client.heard :=
      List.prefix_of_prefix_length_le (hsent ▸ List.prefix_append _ _) hl.heard (Nat.le_of_not_lt hlt)
    exact absurd (hall.subset (by simp [hpre])) hu

/-- At each read the next message is of the kind the reader is after: results
where it exchanges results, and then those the other end computed, and states
before. -/
structure Matched (p : Pair) : Prop where
  clientLoop : ∀ m, p.client.pc = .selecting → p.toClient = some m → ∃ s, m = .setState s
  clientResults : ∀ results m, p.client.pc = .readingResults results → p.toClient = some m →
    m = .sendResults ⟨p.server.streamResults⟩
  serverResults : ∀ results m, p.server.pc = .readingResults results → p.toServer = some m →
    m = .sendResults ⟨p.client.streamResults⟩

theorem Exchanging.matched (h : Exchanging p) : Matched p := by
  refine ⟨?_, ?_, ?_⟩
  · intro m hpc hm
    have hc := h.client
    simp only [ClientTest.Stage, hpc] at hc
    exact h.before hc.2.1 hm
  · intro results m hpc hm
    have hc := h.client
    simp only [ClientTest.Stage, hpc] at hc
    obtain ⟨⟨got, hg, hh⟩, -, -⟩ := hc
    obtain ⟨ys, hsent, -, rfl | ⟨r, rfl⟩⟩ := h.after hg hh
    · simp [toClient, hsent, hh] at hm
    · have hr : r = ⟨p.server.streamResults⟩ := h.server.results h.said (by simp [hsent])
      simp [toClient, hsent, hh] at hm
      rw [← hm, hr]
  · intro results m hpc hm
    have hs := h.server
    simp only [ServerTest.Stage, hpc] at hs
    rw [toServer, hs.1] at hm
    rcases h.client.sent with hsent | hsent
    · simp [hsent] at hm
    · simp [hsent] at hm
      exact hm.symm

/-- However the two ends' steps interleave, no read takes a message of the wrong
kind. When both ends have printed, each printed the results the other computed,
and no message is left. -/
theorem results_agree (h : Reach step (new cookie params) p) :
    Matched p ∧ ∀ localS remoteS localC remoteC, p.server.pc = .returned (some (localS, remoteS)) →
      p.client.pc = .returned (some (localC, remoteC)) →
      remoteC = localS ∧ remoteS = localC ∧ localS = ⟨p.server.streamResults⟩ ∧ localC = ⟨p.client.streamResults⟩ ∧
        p.toClient = none ∧ p.toServer = none := by
  have hi := exchanging_reach h
  refine ⟨hi.matched, fun localS remoteS localC remoteC hs hc => ?_⟩
  have hserver := hi.server
  have hclient := hi.client
  have hsaid := hi.said
  simp only [ServerTest.Stage, hs] at hserver
  simp only [ClientTest.Stage, hc] at hclient
  simp only [ServerTest.Said, hs] at hsaid
  obtain ⟨hreceived, hlocalS⟩ := hserver
  obtain ⟨⟨got, hg, hh⟩, hsentC, hlocalC⟩ := hclient
  obtain ⟨ys, hsentS, hys, hr⟩ := hi.after hg hh
  -- both ends of the connection have come to the last message
  have hlast : ys = [.sendResults remoteC] := by
    rcases hr with rfl | ⟨r, rfl⟩
    · simp at hys
    · simpa [eq_comm] using hys
  subst hlast
  have hremoteC : remoteC = localS := by
    obtain ⟨ms, -, hms⟩ := hsaid
    have hget := congrArg List.getLast? (hms.symm.trans hsentS)
    simpa [eq_comm] using hget
  have hremoteS : remoteS = localC := by
    have hpre := hi.received
    rw [hreceived, hsentC] at hpre
    simpa using hpre
  refine ⟨hremoteC, hremoteS, hlocalS, hlocalC, ?_, ?_⟩
  · simp [toClient, hsentS, hh]
  · simp [toServer, hsentC, hreceived]

/-- What both ends count on the one stream, the client sending. -/
def oneResult (sender : Bool) : TestResults := ⟨(∅ : Map StreamStats).insert 0 ⟨sender, 10000, 131072, 1, none⟩⟩

/-- An upload with one stream, from the first state to the results. -/
def uploadRun : List PairEvent :=
  (ServerTest.announceRun.map .server : List PairEvent) ++
    ([.lock, .lock, .read (.ok (.setState (.createStreams "c"))), .lock, .lock, .connect (some 0)] :
      List ClientEvent).map .client ++
    (ServerTest.connectRun 1).map .server ++
    ([.read (.ok (.setState .running)), .lock, .lock] : List ClientEvent).map .client ++
    (ServerTest.loadRun 1).map .server ++
    ([.worker 0 .start, .worker 0 .message, .worker 0 (.stop ⟨true, 10000, 131072, 1, none⟩)] :
      List ClientEvent).map .client ++
    ([.recv, .join, .lock] : List ClientEvent).map .client ++
    ([.recv, .join, .write true, .lock, .lock] : List ServerEvent).map .server ++
    ([.read (.ok (.setState .exchangeResults)), .lock, .lock, .write true] : List ClientEvent).map .client ++
    ([.read (some (.sendResults (oneResult true))), .write true] : List ServerEvent).map .server ++
    [.client (.read (.ok (.sendResults (oneResult false))))]

theorem results_agree_one : ∃ p, Reach step (new "c" (uploadParams 1)) p ∧
    p.server.pc = .returned (some (oneResult false, oneResult true)) ∧
    p.client.pc = .returned (some (oneResult true, oneResult false)) ∧ Matched p ∧ p.toClient = none ∧
    p.toServer = none := by
  obtain ⟨p, hr, hp⟩ := exists_of_exec step (new "c" (uploadParams 1)) uploadRun
    (fun p => p.server.pc = .returned (some (oneResult false, oneResult true)) ∧
      p.client.pc = .returned (some (oneResult true, oneResult false))) (by decide +kernel)
  simp only [decide_eq_true_eq] at hp
  obtain ⟨hmatched, hagree⟩ := results_agree hr
  obtain ⟨-, -, -, -, hc, hs⟩ := hagree _ _ _ _ hp.1 hp.2
  exact ⟨p, hr, hp.1, hp.2, hmatched, hc, hs⟩

end Pair

end Netperf
