import Netperf.Roster
import Netperf.Completion
/-!
# What a session reports

In a session whose tasks do not fail, the results at both ends have a row for
each stream of the test, whatever third parties do, and the two rows of a
stream are those of a sender and of a receiver.
-/

namespace Netperf.Session

open Maps Frames Runs Lists

variable {decode : List UInt8 → Option ClientEnvelope} {s u : Session} {e : SessionEvent} {cookie : String}
  {params : TestParameters} {t t' : ServerTest}

/-- No task of the test fails at either end, and no drain gives one up. -/
def Unbroken (s : Session) : SessionEvent → Prop
  | .server (.test k e) => k = s.test → e.unbroken = true
  | .client e => e.unbroken = true
  | _ => True

/-- Both ends account for their streams, unless they have failed. -/
structure Rostered (s : Session) (t : ServerTest) : Prop where
  server : t.pc ≠ .returned none → t.Rostered
  announces : t.Announces
  client : s.client.pc ≠ .returned none → s.client.Rostered

/-! ## The server's end -/

/-- No stream joins a running load. -/
theorem Settled.unloaded (hi : Settled decode cookie params s t) (n : Nat) (rest : List ControllerMessage)
    (hpc : t.pc = .waiting) (hq : t.queue = .createStream n :: rest) : t.oldState ≠ .running := by
  intro ho
  have hr : t.returned = false := by simp [ServerTest.returned, hpc]
  rcases hi.gathers hr with hfull | hg
  · -- the stream in the queue is one of the client's, and they are all there
    have hlen := hi.aligned.handed.length_le.trans hi.dialed_le
    have hq' : t.workers.length < t.connections.length := by simp [ServerTest.connections, hq]
    rw [hi.total] at hfull
    omega
  · have hstate := hg.state
    rw [(Pair.linked_reach hi.pair).phase.not_gathering hr ho] at hstate
    cases hstate

theorem Rostered.server_step (hr : Rostered s t) (hi : Settled decode cookie params s t) {v : Server} {ev : NetEvent}
    (h : s.server.step decode ev = some v) (ht' : v.tests[s.test]? = some t')
    (hl : ∀ te, ev = .test s.test te → t.Loads te ∧ te.unbroken = true) :
    (t'.pc ≠ .returned none → t'.Rostered) ∧ t'.Announces := by
  obtain ⟨t₀, ht₀, hcases⟩ := Session.test_step (Server.step_cases h) (Server.wired_reach hi.server) hi.test
  obtain rfl := Option.some.inj (ht₀.symm.trans ht')
  rcases hcases with rfl | ⟨te, hte, hst⟩
  · exact ⟨hr.server, hr.announces⟩
  have hlinked := Pair.linked_reach hi.pair
  have hphase := hlinked.phase
  have hstep := ServerTest.step_cases hte
  have hte' : t.Loads te ∧ te.unbroken = true := by
    rcases hst with he | rfl | rfl | ⟨c, rfl, -⟩
    · exact hl te he
    · exact ⟨trivial, rfl⟩
    · exact ⟨trivial, rfl⟩
    · exact ⟨trivial, rfl⟩
  obtain ⟨cookie', params', es, hrun⟩ := Server.test_reach hi.server _ t hi.test
  have hc := ServerTest.collects_run hrun hi.ranked.toNumbered.nodup
  refine ⟨fun hu => ?_, ServerTest.announces_step hstep hphase (Pair.exchanging_reach hi.pair).said hr.server hr.announces⟩
  have ht : t.pc ≠ .returned none := fun hpc => hu (ServerTest.pc_of_failed hstep hpc)
  exact ServerTest.rostered_step hstep hte'.2 hte'.1 hphase hi.ranked.toNumbered hc hi.unloaded hi.gathers hu
    (hr.server ht)

/-! ## The client's end -/

/-- The client hears the end of a load that it has started. -/
theorem Settled.hears_end (hi : Settled decode cookie params s t) (ha : t.Announces) (hpc : s.client.pc = .selecting)
    (hd : (Pair.mk t s.client).delivers (.client (.read (.ok (.setState .exchangeResults)))) = true) :
    s.client.state = .running := by
  have hex := Pair.exchanging_reach hi.pair
  have hm : (Pair.mk t s.client).toClient = some (.setState .exchangeResults) := by simpa [Pair.delivers] using hd
  have hpre : s.client.heard ++ [.setState .exchangeResults] <+: t.sent := prefix_concat hex.heard hm
  have hload : .setState .running ∈ t.sent := ha (hpre.subset (by simp))
  have hscript := hi.gathering.script (by simp [ClientTest.returned, hpc])
  obtain ⟨s₀, ms, hms, hsent⟩ := hex.said.script
  -- the announcements end with the one that is heard now
  have hstates : s.client.heard ++ [.setState .exchangeResults] <+: ms ∧ .setState .running ∈ ms := by
    rcases hsent with hsent | ⟨-, results, hsent⟩
    · exact ⟨hsent ▸ hpre, hsent ▸ hload⟩
    · rw [hsent] at hpre hload
      refine ⟨?_, by simpa using hload⟩
      rcases List.prefix_concat_iff.1 hpre with he | hpre
      · simpa using (List.append_inj' he rfl).2
      · exact hpre
  obtain ⟨hstates, hload⟩ := hstates
  have hs₀ : s₀ = .exchangeResults := by
    by_contra hne
    exact hms.not_ended hne (hstates.subset (by simp))
  subst hs₀
  obtain ⟨pre, hpre', rfl⟩ := hms.ended
  have hheard : s.client.heard = pre := by
    rcases List.prefix_concat_iff.1 hstates with he | hin
    · exact (List.append_inj' he rfl).1
    · exact absurd (hin.subset (by simp)) hpre'
  have hnext : s.client.nextState = s.client.state := by simp [ClientTest.nextState, hpc]
  rw [hheard, hnext] at hscript
  rcases hscript.loaded (by simpa using hload) with hs | hs
  · exact hs
  · rw [hs] at hscript
    exact absurd (hscript.mem (by simp)) hpre'

theorem Rostered.client_step (hr : Rostered s t) (hi : Settled decode cookie params s t) {c : ClientTest}
    {ev : ClientEvent} (h : s.client.step ev = some c) (hl : s.client.Loads ev) (he : ev.unbroken = true)
    (hd : (Pair.mk t s.client).delivers (.client ev) = true) (hu : c.pc ≠ .returned none) : c.Rostered := by
  have hstep := ClientTest.step_cases h
  have ht : s.client.pc ≠ .returned none := fun hpc => hu (ClientTest.pc_of_failed hstep hpc)
  obtain ⟨es, hrun⟩ := Pair.client_reach hi.pair
  have hc := ClientTest.collects_run hrun hi.gathering.ranked.toNumbered.nodup
  have hears : ClientTest.Hears cookie s.client ev := by
    intro m hm hpc
    have hcookie : t.cookie = cookie := congrArg Prod.fst (Pair.config_reach hi.pair).1
    have hscript := hi.gathering.script (by simp [ClientTest.returned, hpc])
    exact (Pair.exchanging_reach hi.pair).hears hcookie hscript hd m hm hpc
  refine ClientTest.rostered_step hstep he hl hi.gathering hc hears ?_ hu (hr.client ht)
  rintro rfl hpc
  exact hi.hears_end hr.announces hpc hd

/-! ## The session -/

theorem rostered_step (h : s.step decode e = some u) (hc : Honest decode cookie s e) (hb : Unbroken s e)
    (hi : Settled decode cookie params s t) (ht' : u.server.tests[s.test]? = some t') (hr : Rostered s t) :
    Rostered u t' := by
  obtain ⟨-, hload⟩ := hc
  cases step_cases h with
  | server _ hs =>
    obtain ⟨hserver, hann⟩ := hr.server_step hi hs ht' (fun te he => by
      subst he
      exact ⟨hload rfl t hi.test, hb rfl⟩)
    exact ⟨hserver, hann, hr.client⟩
  | client hne hd hs =>
    obtain rfl := Option.some.inj (hi.test.symm.trans ht')
    exact ⟨hr.server, hr.announces, hr.client_step hi hs hload hb (delivers_eq hi.test _ ▸ hd)⟩
  | connected _ _ hs =>
    obtain rfl := Option.some.inj (hi.test.symm.trans ht')
    exact ⟨hr.server, hr.announces, hr.client_step hi hs trivial rfl rfl⟩
  | dial =>
    obtain rfl := Option.some.inj (hi.test.symm.trans ht')
    exact ⟨hr.server, hr.announces, hr.client⟩
  | arrive _ hs =>
    obtain ⟨hserver, hann⟩ := hr.server_step hi hs ht' (by simp)
    exact ⟨hserver, hann, hr.client⟩

theorem rostered_run {k : Nat} {w : Server} {es : List SessionEvent} (hw : Created decode cookie params k w)
    (h : Run (step decode) (fun s e => Honest decode cookie s e ∧ Unbroken s e) (new w k cookie params) es s) :
    s.test = k ∧ ∃ t, Settled decode cookie params s t ∧ Rostered s t := by
  induction h with
  | nil =>
    exact ⟨rfl, _, settled_new hw, fun _ => .new cookie params, by simp [ServerTest.Announces, ServerTest.new],
      fun _ => .new cookie params⟩
  | snoc _ hc hs ih =>
    obtain ⟨hk, t, hi, hr⟩ := ih
    obtain ⟨htest, -⟩ := pair_step (step_cases hs) (Server.wired_reach hi.server) hi.test
    obtain ⟨t', hi'⟩ := settled_step hs hc.1 hi
    exact ⟨htest.trans hk, t', hi', rostered_step hs hc.1 hc.2 hi (htest ▸ hi'.test) hr⟩

/-! ## The rows -/

/-- The direction of the rows: the client's entry of stream `id` is a sender's. -/
def clientSends (params : TestParameters) (id : Nat) : Bool :=
  params.direction = .clientToServer ∨ (params.direction = .bidirectional ∧ id < params.parallel.toNat)

/-- The rows of an end whose entry of stream `id` is a sender's if `sends id`. -/
def Reports (params : TestParameters) (sends : Nat → Bool) (results : TestResults) : Prop :=
  ∀ id, (results.streams.lookup id).map StreamStats.sender =
    if id < (PerfTest.new "" .client params).totalNeededStreams then some (sends id) else none

theorem sendingAt (cookie : String) (params : TestParameters) {id : Nat}
    (hid : id < (PerfTest.new cookie .client params).totalNeededStreams) :
    (PerfTest.new cookie .client params).isSendingAt id = clientSends params id ∧
      (PerfTest.new cookie .server params).isSendingAt id = !clientSends params id := by
  obtain ⟨hopposite, hsends⟩ := PerfTest.directions cookie params hid
  have hclient : (PerfTest.new cookie .client params).isSendingAt id = clientSends params id := by
    rw [Bool.eq_iff_iff, hsends]
    simp [clientSends]
  exact ⟨hclient, hclient ▸ hopposite⟩

theorem Rostered.server_reports (hr : Rostered s t) (hi : Settled decode cookie params s t) {r : TestResults}
    (hc : t.collected = some r) : Reports params (fun id => !clientSends params id) r := by
  have hsome : t.collected.isSome = true := by simp [hc]
  have hrostered := hr.server (fun hpc => by simp [ServerTest.collected, hpc] at hc)
  obtain ⟨hserver, hclient⟩ := Pair.config_reach hi.pair
  obtain ⟨_, _, es, hrun⟩ := Server.test_reach hi.server _ t hi.test
  have hkept := (ServerTest.collects_run hrun hi.ranked.toNumbered.nodup).kept r hc
  have hlen : t.workers.length = (PerfTest.new cookie .client params).totalNeededStreams := by
    have hge := hrostered.manned (hrostered.led (.inr hsome))
    have hle := (t.workers_le_connections.trans hi.aligned.handed.length_le).trans hi.dialed_le
    have htotal : s.client.totalNeededStreams = (PerfTest.new cookie .client params).totalNeededStreams :=
      PerfTest.totalNeededStreams_config hclient
    rw [hi.total] at hge
    omega
  intro id
  rw [hkept, hrostered.tended.rows_eq hi.ranked (ServerTest.unheld hsome) id, hlen]
  refine ite_congr rfl (fun hid => ?_) (fun _ => rfl)
  rw [PerfTest.isSendingAt_config hserver, (sendingAt cookie params hid).2]

theorem Rostered.client_reports (hr : Rostered s t) (hi : Settled decode cookie params s t) {r : TestResults}
    (hc : s.client.collected = some r) : Reports params (clientSends params) r := by
  have hsome : s.client.collected.isSome = true := by simp [hc]
  obtain ⟨hex, hpc⟩ := ClientTest.exchanging_of_collected hsome
  have hrostered := hr.client hpc
  have hclient := (Pair.config_reach hi.pair).2
  obtain ⟨es, hrun⟩ := Pair.client_reach hi.pair
  have hkept := (ClientTest.collects_run hrun hi.gathering.ranked.toNumbered.nodup).kept r hc
  have hlen : s.client.workers.length = (PerfTest.new cookie .client params).totalNeededStreams := by
    have hge := hrostered.manned.loading (.inr (hrostered.led (.inr hex)))
    have hle := hi.gathering.bounded
    have htotal : s.client.totalNeededStreams = (PerfTest.new cookie .client params).totalNeededStreams :=
      PerfTest.totalNeededStreams_config hclient
    omega
  intro id
  rw [hkept, hrostered.tended.rows_eq hi.gathering.ranked (ClientTest.unheld hsome) id, hlen]
  refine ite_congr rfl (fun hid => ?_) (fun _ => rfl)
  rw [PerfTest.isSendingAt_config hclient, (sendingAt cookie params hid).1]

/-- If no task of the test fails or is given up, and none ends before the load,
the results that an end collects have a row for each stream of the test and no
other, and the rows of a stream are a sender's at one end and a receiver's at the
other. Third parties may connect at any time without the cookie, and reads and
writes of the control connection may fail. -/
theorem results_complete {k : Nat} {w : Server} {es : List SessionEvent} (hw : Created decode cookie params k w)
    (h : Run (step decode) (fun s e => Honest decode cookie s e ∧ Unbroken s e) (new w k cookie params) es s)
    (ht : s.server.tests[k]? = some t) :
    (∀ r, t.collected = some r → Reports params (fun id => !clientSends params id) r) ∧
      ∀ r, s.client.collected = some r → Reports params (clientSends params) r := by
  obtain ⟨rfl, t₀, hi, hr⟩ := rostered_run hw h
  obtain rfl : t = t₀ := Option.some.inj (ht.symm.trans hi.test)
  exact ⟨fun _ => hr.server_reports hi, fun _ => hr.client_reports hi⟩

instance (s : Session) : (e : SessionEvent) → Decidable (Unbroken s e)
  | .server (.test k e) => inferInstanceAs (Decidable (k = s.test → e.unbroken = true))
  | .client e => inferInstanceAs (Decidable (e.unbroken = true))
  | .server (.accept _) | .server .lock | .server .read | .server (.write _) | .server .send | .server .timeout
  | .dial _ | .arrive => .isTrue trivial

/-- The test with one stream, from its load to the results at both ends. -/
def reportedRun : List SessionEvent :=
  loadedRun ++ (ServerTest.loadRun 1).map (fun e => .server (.test 0 e)) ++
    ([.worker 0 .start, .worker 0 .message, .worker 0 (.stop ⟨true, 10000, 131072, 1, none⟩), .recv, .join, .lock] :
      List ClientEvent).map .client ++
    ([.recv, .join, .write true, .lock, .lock] : List ServerEvent).map (fun e => .server (.test 0 e)) ++
    ([.read (.ok (.setState .exchangeResults)), .lock, .lock, .write true] : List ClientEvent).map .client ++
    ([.read (some (.sendResults (Pair.oneResult true))), .write true] : List ServerEvent).map
      (fun e => .server (.test 0 e)) ++
    [.client (.read (.ok (.sendResults (Pair.oneResult false))))]

theorem results_complete_one : ∃ w s t, Created Server.startDecode "c" (uploadParams 1) 0 w ∧
    Run (step Server.startDecode) (fun s e => Honest Server.startDecode "c" s e ∧ Unbroken s e)
      (new w 0 "c" (uploadParams 1)) reportedRun s ∧
    s.server.tests[0]? = some t ∧ t.collected = some (Pair.oneResult false) ∧
    s.client.collected = some (Pair.oneResult true) ∧
    Reports (uploadParams 1) (fun id => !clientSends (uploadParams 1) id) (Pair.oneResult false) ∧
    Reports (uploadParams 1) (clientSends (uploadParams 1)) (Pair.oneResult true) := by
  obtain ⟨w, s, hw, hrun, hp⟩ := exists_session Server.startDecode
    (fun s e => Honest Server.startDecode "c" s e ∧ Unbroken s e) (Server.peer Server.startEnvelopes false) "c"
    (uploadParams 1) reportedRun
    (fun s => s.client.collected = some (Pair.oneResult true) ∧
      (s.server.tests[0]?).any (fun t => t.collected = some (Pair.oneResult false))) (by decide +kernel)
  simp only [Option.any_eq_true, decide_eq_true_eq] at hp
  obtain ⟨hc, t, ht, hs⟩ := hp
  obtain ⟨hserver, hclient⟩ := results_complete hw hrun ht
  exact ⟨w, s, t, hw, hrun, ht, hs, hc, hserver _ hs, hclient _ hc⟩

end Netperf.Session
