import Netperf.Progress
import Netperf.Room
import Netperf.Vanish
/-!
# The whole session

From the creation of a test to the results at both ends. Each controller waits
for somebody else at two awaits only: in its loop, and where it reads the
other's results. Without faults, and if nothing is lost for want of room, at no
point both do so in vain.
-/

namespace Netperf

open Maps Frames Runs Lists

/-! ## The results -/

/-- Where both ends have printed, each has printed what the other computed. -/
theorem Pair.Exchanging.crossed {p : Pair} (hi : p.Exchanging) {localS remoteS localC remoteC : TestResults}
    (hs : p.server.pc = .returned (some (localS, remoteS))) (hc : p.client.pc = .returned (some (localC, remoteC))) :
    remoteC = localS ∧ remoteS = localC := by
  have hclient := hi.client
  have hserver := hi.server
  have hsaid := hi.said
  simp only [ClientTest.Stage, hc] at hclient
  simp only [ServerTest.Stage, hs] at hserver
  simp only [ServerTest.Said, hs] at hsaid
  obtain ⟨⟨got, -, hgot⟩, hsentC, -⟩ := hclient
  obtain ⟨ms, hms, hsentS⟩ := hsaid
  have hremoteC : .sendResults remoteC ∈ ms ++ [.sendResults localS] := hsentS ▸ hi.heard.subset (by simp [hgot])
  have hremoteS : ([.sendResults remoteS] : List ClientMessage) <+: [.sendResults localC] :=
    hsentC ▸ hserver.1 ▸ hi.received
  exact ⟨by simpa [hms.no_results remoteC] using hremoteC, by simpa using hremoteS⟩

/-! ## The controllers by themselves -/

/-- The controller's own next step: a lock, a write, a message, a join, or a
timer of the final drain. -/
def ServerEvent.ofController : ServerEvent → Bool
  | .lock | .write true | .recv | .join | .collect _ _ => true
  | _ => false

def ClientEvent.ofController : ClientEvent → Bool
  | .lock | .write true | .recv | .join | .collect _ _ => true
  | _ => false

namespace ServerTest
variable {t u : ServerTest} {e : ServerEvent}

/-- A drain goes on with any of its streams. -/
theorem collect_enabled {pending : Map StreamWorkerRef} (hpc : t.pc = .collecting pending) (hne : pending ≠ ∅) :
    ∃ id joined, (t.step (.collect id joined)).isSome = true := by
  obtain ⟨id, ref, hl⟩ := exists_lookup_of_ne_empty hne
  cases hres : t.taskResult ref with
  | none => exact ⟨id, false, by simp [step, hpc, hl, hres]⟩
  | some r => exact ⟨id, true, by simp [step, hpc, hl, hres]⟩

/-- The server's controller depends on others only where it waits with an empty
channel and where it reads the client's results. -/
theorem Steered.acts (h : Steered t) (hl : t.locked = false) :
    (∃ e, ServerEvent.ofController e = true ∧ (t.step e).isSome = true) ∨ (t.pc = .waiting ∧ t.queue = []) ∨
      (∃ results, t.pc = .readingResults results) ∨ t.returned = true := by
  cases hpc : t.pc with
  | start | loopTop | storingState => exact .inl ⟨.lock, rfl, by simp [step, hl, hpc]⟩
  | waiting =>
    cases hq : t.queue with
    | nil => exact .inr (.inl ⟨rfl, rfl⟩)
    | cons m rest => exact .inl ⟨.recv, rfl, by simp [step, hpc, hq]⟩
  | joining id ref =>
    obtain ⟨w, hget, hret⟩ := h.joining id ref hpc
    obtain ⟨r, hres⟩ := t.taskResult_of_returned hget hret
    refine .inl ⟨.join, rfl, ?_⟩
    cases r <;> simp [step, hpc, hres]
  | writingState | sendingResults => exact .inl ⟨.write true, rfl, by simp [step, hpc]⟩
  | readingResults results => exact .inr (.inr (.inl ⟨results, rfl⟩))
  | collecting pending =>
    obtain ⟨id, joined, hs⟩ := collect_enabled hpc (h.collecting pending hpc)
    exact .inl ⟨_, rfl, hs⟩
  | returned => exact .inr (.inr (.inr (by simp [returned, hpc])))

theorem gone_step (h : Step t e u) (he : e.unfailing = true) : u.gone = t.gone := by
  cases h with
  | vanish => cases he
  | _ => simp

/-- A controller that has told its streams to start has all of them. -/
theorem Phase.complete_of_load (hp : Phase t) (hr : t.returned = false) (ho : t.oldState = .running) :
    t.complete = true := by
  apply complete_of_running
  unfold Phase at hp
  split at hp
  case h_1 => simp [ho] at hp
  case h_2 =>
    rcases hp with ⟨hs, -⟩ | ht
    · exact .inl (hs.symm.trans ho)
    · exact ht.onward (.inl ho)
  case h_7 hpc => simp [returned, hpc] at hr
  case h_8 => exact .inr hp
  all_goals exact .inl (hp.1.symm.trans ho)

end ServerTest

namespace ClientTest
variable {t u : ClientTest} {e : ClientEvent}

/-- The final drain has streams to wait for. -/
def Draining (t : ClientTest) : Prop := ∀ pending, t.pc = .collecting pending → pending ≠ ∅

theorem collectNext_draining (pending : Map StreamWorkerRef) : Draining (t.collectNext pending) := by
  intro p hp
  by_cases h : len pending = 0
  · simp [collectNext, h] at hp
  · simp only [collectNext, if_neg h, ClientPc.collecting.injEq] at hp
    rw [← hp]
    exact mt len_eq_zero.2 h

theorem createStreams_draining : Draining t.createStreams := by
  intro p hp
  by_cases h : len t.streams < t.totalNeededStreams <;> simp [createStreams, h] at hp

theorem draining_step (h : Step t e u) (hi : Draining t) : Draining u := by
  cases h with
  | finish | collected | timedOut => exact collectNext_draining _
  | create | connected => exact createStreams_draining
  | worker => exact hi
  | _ => simp [Draining]

theorem draining_reach {cookie : String} {params : TestParameters} (h : Reach step (new cookie params) t) :
    Draining t :=
  h.inv Draining (by simp [Draining, new]) (fun _ _ _ hi hs => draining_step (step_cases hs) hi)

theorem collect_enabled {pending : Map StreamWorkerRef} (hpc : t.pc = .collecting pending) (hne : pending ≠ ∅) :
    ∃ id joined, (t.step (.collect id joined)).isSome = true := by
  obtain ⟨id, ref, hl⟩ := exists_lookup_of_ne_empty hne
  cases hres : t.taskResult ref with
  | none => exact ⟨id, false, by simp [step, hpc, hl, hres]⟩
  | some r => exact ⟨id, true, by simp [step, hpc, hl, hres]⟩

/-- The client's controller depends on others only where it selects with an
empty channel, where it connects, and where it reads the server's results. -/
theorem Draining.acts (h : Draining t)
    (hj : ∀ id ref, t.pc = .joining id ref → ∃ r, t.taskResult ref = some r ∧ r ≠ .panicked) :
    (∃ e, ClientEvent.ofController e = true ∧ (t.step e).isSome = true) ∨ (t.pc = .selecting ∧ t.queue = []) ∨
      t.pc = .connecting ∨ (∃ results, t.pc = .readingResults results) ∨ t.returned = true := by
  cases hpc : t.pc with
  | start | loopTop | storingState => exact .inl ⟨.lock, rfl, by simp [step, hpc]⟩
  | selecting =>
    cases hq : t.queue with
    | nil => exact .inr (.inl ⟨rfl, rfl⟩)
    | cons m rest => exact .inl ⟨.recv, rfl, by simp [step, hpc, hq]⟩
  | joining id ref =>
    obtain ⟨r, hres, -⟩ := hj id ref hpc
    refine .inl ⟨.join, rfl, ?_⟩
    cases r <;> simp [step, hpc, hres]
  | connecting => exact .inr (.inr (.inl rfl))
  | collecting pending =>
    obtain ⟨id, joined, hs⟩ := collect_enabled hpc (h pending hpc)
    exact .inl ⟨_, rfl, hs⟩
  | sendingResults => exact .inl ⟨.write true, rfl, by simp [step, hpc]⟩
  | readingResults results => exact .inr (.inr (.inr (.inl ⟨results, rfl⟩)))
  | returned => exact .inr (.inr (.inr (.inr (by simp [returned, hpc]))))

end ClientTest

/-- The events of the session of test `k` itself: of the accept loop, of the test
at both ends with its workers, and of the data connections. -/
def SessionEvent.within (k : Nat) : SessionEvent → Bool
  | .server (.test j _) => j = k
  | _ => true

/-- The accept loop looks at a test whose state nobody holds. -/
theorem Server.locks_of_step {decode : List UInt8 → Option ClientEnvelope} {s u : Server} (h : Step decode s .lock u) :
    ∃ c k t, s.pc = .locking c k ∧ s.tests[k]? = some t ∧ t.locked = false := by
  cases h with
  | guarded hpc ht hl | busy hpc ht hl => exact ⟨_, _, _, hpc, ht, hl⟩

namespace Session
variable {decode : List UInt8 → Option ClientEnvelope} {s u : Session} {e : SessionEvent} {cookie : String}
  {params : TestParameters} {t t' : ServerTest}

/-! ## What may happen in a session -/

/-- No worker of the test panics on the server. -/
def Sound (s : Session) : SessionEvent → Prop
  | .server (.test k (.worker _ e)) => k = s.test → e ≠ .panic
  | _ => True

/-- A session without third parties, faults and panics, whose accept loop reads
settled states only. -/
def Clean (decode : List UInt8 → Option ClientEnvelope) (cookie : String) (s : Session) (e : SessionEvent) : Prop :=
  Smooth decode cookie s e ∧ Undelayed s e ∧ Sound s e

/-- A worker of the server that returns finds room for its notice. -/
def NoticeRoom (s : Session) : SessionEvent → Prop
  | .server (.test k (.worker i e)) =>
    k = s.test → ∀ t, s.server.tests[k]? = some t → t.returns i e = true → t.queue.length < internalProtBuffer
  | _ => True

/-- Nothing is lost for want of room in the channel of the server's controller. -/
def Roomy (s : Session) (e : SessionEvent) : Prop := HasRoom s e ∧ NoticeRoom s e

/-- Some part of the session can take a step that keeps to all of this. -/
def Goes (decode : List UInt8 → Option ClientEnvelope) (cookie : String) (s : Session) : Prop :=
  ∃ e u, e.within s.test = true ∧ (Clean decode cookie s e ∧ Roomy s e) ∧ s.step decode e = some u

/-- The accept loop, which holds the guard of the test's state, is about to hand
a connection to a test whose channel is full. -/
def Jammed (s : Session) (t : ServerTest) : Prop :=
  ∃ c, s.server.pc = .handing c s.test ∧ internalProtBuffer ≤ t.queue.length

/-- Both controllers have printed results, each its own and the other's. -/
def Finished (s : Session) (t : ServerTest) : Prop :=
  ∃ r r', t.pc = .returned (some (r, r')) ∧ s.client.pc = .returned (some (r', r))

theorem Clean.steady (h : Clean decode cookie s e) (hr : Roomy s e) : Steady decode cookie s e := ⟨h.1, h.2.1, hr.1⟩

/-! ## The server's test -/

/-- While the load runs no connection is left in the channel: all streams are
there, and the client makes no more. -/
theorem Settled.connected (hi : Settled decode cookie params s t) (hpc : t.pc = .waiting) (hs : t.state = .running)
    (n : Nat) (rest : List ControllerMessage) : t.queue ≠ .createStream n :: rest := by
  intro hq
  have hfull : t.totalNeededStreams ≤ t.workers.length := by
    refine (hi.gathers (by simp [ServerTest.returned, hpc])).resolve_right (fun hg => ?_)
    have hstate := hg.state
    simp [ServerTest.nextState, hpc, hs, State.gathering] at hstate
  have hlen := hi.aligned.handed.length_le.trans hi.dialed_le
  have hmore : t.workers.length < t.connections.length := by simp [ServerTest.connections, hq]
  rw [hi.total] at hfull
  omega

/-- What a step of the session does to the server's test loses nothing. -/
theorem Flowing.frees (hi : Settled decode cookie params s t) (hf : Flowing decode cookie s t) {te : ServerEvent}
    (h : t.step te = some t') (he : te.unfailing = true) (hl : t.Loads te) (hg : t.gone = false)
    (hw : ∀ i we, te = .worker i we → we ≠ .panic ∧ (t.returns i we = true → t.queue.length < internalProtBuffer)) :
    t.Frees te := by
  cases te with
  | write ok => exact .inl he
  | vanish => cases he
  | guard => exact hg
  | worker i we =>
    obtain ⟨hpanic, hroom⟩ := hw i we rfl
    refine ⟨hpanic, fun hret => ⟨hroom hret, ?_⟩⟩
    have hends : t.ends (t.channelOpen i) i we = true := by
      simp only [ServerTest.returns, TestController.ends, Option.any_eq_true] at hret ⊢
      obtain ⟨w, hget, w', hs, hr⟩ := hret
      refine ⟨w, hget, w', hs, ?_⟩
      by_contra hd
      rw [Worker.not_returned_of_not_done (by simpa using hd)] at hr
      cases hr
    by_cases hr : t.returned = true
    · exact ServerTest.complete_of_running (.inr (hf.server.ended hr))
    · exact (Pair.linked_reach hi.pair).phase.complete_of_load (by simpa using hr) ((hl hends).resolve_right hr)
  | recv =>
    intro hs
    cases ServerTest.recv_cases h with
    | accept hpc hq => exact absurd hq (hi.connected hpc hs _ _)
    | terminated _ hq | unknown _ hq => simp [hq]
  | _ => trivial

/-- The server's test of a session, as a run of its own that loses nothing. -/
theorem Flowing.freed (hi : Settled decode cookie params s t) (hf : Flowing decode cookie s t) (h : s.step decode e = some u)
    (hc : Clean decode cookie s e) (hr : Roomy s e) (hg : t.gone = false) (ht' : u.server.tests[s.test]? = some t') :
    t' = t ∨ ∃ te, t.step te = some t' ∧ t.Frees te ∧ t'.gone = false := by
  have hw := Server.wired_reach hi.server
  obtain ⟨⟨⟨-, hload⟩, -, hfault⟩, -, hsound⟩ := hc
  have main : ∀ {v : Server} {ev : NetEvent}, Server.Step decode s.server ev v → v.tests[s.test]? = some t' →
      (∀ te, ev = .test s.test te → te.unfailing = true ∧ t.Loads te ∧ ∀ i we, te = .worker i we → we ≠ .panic ∧
        (t.returns i we = true → t.queue.length < internalProtBuffer)) →
      t' = t ∨ ∃ te, t.step te = some t' ∧ t.Frees te ∧ t'.gone = false := by
    intro v ev hs ht' hev
    obtain ⟨t₀, ht₀, hcases⟩ := Session.test_step hs hw hi.test
    obtain rfl := Option.some.inj (ht₀.symm.trans ht')
    refine hcases.imp_right (fun ⟨te, hte, hst⟩ => ⟨te, hte, ?_⟩)
    have hte' : te.unfailing = true ∧ t.Loads te ∧ ∀ i we, te = .worker i we → we ≠ .panic ∧
        (t.returns i we = true → t.queue.length < internalProtBuffer) := by
      rcases hst with he | rfl | rfl | ⟨c, rfl, -⟩
      · exact hev te he
      · exact ⟨rfl, trivial, by simp⟩
      · exact ⟨rfl, trivial, by simp⟩
      · exact ⟨rfl, trivial, by simp⟩
    obtain ⟨he, hl, hroom⟩ := hte'
    exact ⟨hf.frees hi hte he hl hg hroom, (ServerTest.gone_step (ServerTest.step_cases hte) he).trans hg⟩
  cases step_cases h with
  | @server ev v hd hs =>
    refine main (Server.step_cases hs) ht' (fun te hte => ?_)
    subst hte
    refine ⟨hfault rfl, hload rfl t hi.test, fun i we hwe => ?_⟩
    subst hwe
    exact ⟨hsound rfl, hr.2 rfl t hi.test⟩
  | arrive _ hs => exact main (Server.step_cases hs) ht' (by simp)
  | _ => exact .inl (Option.some.inj (ht'.symm.trans hi.test))

/-- What holds of a session in which nothing is lost. -/
structure Sustained (decode : List UInt8 → Option ClientEnvelope) (cookie : String) (params : TestParameters)
    (s : Session) (t : ServerTest) : Prop where
  settled : Settled decode cookie params s t
  admissible : Admissible decode cookie s t
  flowing : Flowing decode cookie s t
  attended : t.gone = false
  freed : ∃ es, Run ServerTest.step ServerTest.Frees (ServerTest.new cookie params) es t

theorem sustained_step (h : s.step decode e = some u) (hc : Clean decode cookie s e) (hr : Roomy s e)
    (hi : Sustained decode cookie params s t) : u.test = s.test ∧ ∃ t', Sustained decode cookie params u t' := by
  obtain ⟨hset, ha, hf, hg, es, hrun⟩ := hi
  have hsteady := hc.steady hr
  obtain ⟨htest, -⟩ := pair_step (step_cases h) (Server.wired_reach hset.server) hset.test
  obtain ⟨t', hset'⟩ := settled_step h hsteady.prompt.1 hset
  have ht' := htest ▸ hset'.test
  refine ⟨htest, t', ?_⟩
  have ha' := admissible_step h hsteady.prompt hset ha ht'
  have hf' := flowing_step h hsteady hset ha hf ht'
  rcases hf.freed hset h hc hr hg ht' with rfl | ⟨te, hte, hfrees, hg'⟩
  · exact ⟨hset', ha', hf', hg, es, hrun⟩
  · exact ⟨hset', ha', hf', hg', _, hrun.snoc hfrees hte⟩

theorem sustained_new {k : Nat} {w : Server} (hw : Created decode cookie params k w)
    (hn : (ServerTest.new cookie params).totalNeededStreams ≠ 0) :
    Sustained decode cookie params (new w k cookie params) (ServerTest.new cookie params) :=
  ⟨settled_new hw, admissible_new _ _, flowing_new hw hn, rfl, [], .nil⟩

/-- The server's controller, or one of its workers, takes a step. -/
theorem Goes.server (ht : s.server.tests[s.test]? = some t) (hpc : s.server.pc ≠ .returned) (te : ServerEvent)
    (he : te.unfailing = true) (ho : te.ofAcceptLoop = false) (hl : t.Loads te)
    (hp : ∀ i we, te = .worker i we → we ≠ .panic ∧ t.queue.length < internalProtBuffer)
    (hd : s.delivers (.server te) = true) (h : (t.step te).isSome = true) : s.Goes decode cookie := by
  obtain ⟨t', ht'⟩ := Option.isSome_iff_exists.1 h
  refine ⟨.server (.test s.test te), { s with server := { s.server with tests := s.server.tests.set s.test t' } },
    by simp [SessionEvent.within], ⟨⟨⟨⟨trivial, ?_⟩, trivial, fun _ => he⟩, trivial, ?_⟩, trivial, ?_⟩, ?_⟩
  · intro _ t₀ ht₀
    obtain rfl := Option.some.inj (ht.symm.trans ht₀)
    exact hl
  · cases te with
    | worker i we => exact fun _ => (hp i we rfl).1
    | _ => trivial
  · cases te with
    | worker i we =>
      intro _ t₀ ht₀ _
      obtain rfl := Option.some.inj (ht.symm.trans ht₀)
      exact (hp i we rfl).2
    | _ => trivial
  · simp [step, Server.step, ht, hpc, ht', ho, hd]

theorem Goes.controller (ht : s.server.tests[s.test]? = some t) (hpc : s.server.pc ≠ .returned) {te : ServerEvent}
    (he : te.ofController = true) (h : (t.step te).isSome = true) : s.Goes decode cookie := by
  cases te with
  | lock | recv | join | collect =>
    refine .server ht hpc _ ?_ ?_ ?_ ?_ ?_ h <;>
      simp [ServerEvent.unfailing, ServerEvent.ofAcceptLoop, ServerTest.Loads, delivers, Pair.delivers, ht]
  | write ok =>
    cases ok with
    | true =>
      refine .server ht hpc _ ?_ ?_ ?_ ?_ ?_ h <;>
        simp [ServerEvent.unfailing, ServerEvent.ofAcceptLoop, ServerTest.Loads, delivers, Pair.delivers, ht]
    | false => cases he
  | _ => cases he

/-- The client's controller takes a step. -/
theorem Goes.client (ev : ClientEvent) (he : ev.unfailing = true) (hne : ∀ stream, ev ≠ .connect stream)
    (hw : ∀ i we, ev ≠ .worker i we) (hd : s.delivers (.client ev) = true) (h : (s.client.step ev).isSome = true) :
    s.Goes decode cookie := by
  obtain ⟨c, hc⟩ := Option.isSome_iff_exists.1 h
  refine ⟨.client ev, { s with client := c }, rfl, ⟨⟨⟨⟨trivial, ?_⟩, trivial, ?_⟩, trivial, trivial⟩, trivial, trivial⟩, ?_⟩
  · cases ev with
    | worker i we => exact absurd rfl (hw i we)
    | _ => trivial
  · cases ev with
    | connect stream => exact absurd rfl (hne stream)
    | _ => exact he
  · cases ev with
    | connect stream => exact absurd rfl (hne stream)
    | _ => simp [step, hd, hc]

theorem Goes.clientController (ht : s.server.tests[s.test]? = some t) {ev : ClientEvent}
    (he : ev.ofController = true) (h : (s.client.step ev).isSome = true) : s.Goes decode cookie := by
  cases ev with
  | lock | recv | join | collect => exact .client _ rfl (by simp) (by simp) (by simp [delivers, Pair.delivers, ht]) h
  | write ok =>
    cases ok with
    | true => exact .client _ rfl (by simp) (by simp) (by simp [delivers, Pair.delivers, ht]) h
    | false => cases he
  | _ => cases he

/-- Only a hand-over to a full channel breaks the rule on room. -/
theorem Flowing.room (hi : Settled decode cookie params s t) (ha : Admissible decode cookie s t)
    (hf : Flowing decode cookie s t) (hd : s.drives e = true) : Roomy s e ∨ s.Jammed t := by
  have hnotice : NoticeRoom s e := by
    unfold drives at hd
    split at hd <;> simp_all [NoticeRoom]
  by_cases hroom : HasRoom s e
  · exact .inl ⟨hroom, hnotice⟩
  unfold HasRoom Server.hands at hroom
  split at hroom
  · split at hroom
    · rename_i c k hpc
      obtain ⟨rfl, -⟩ := hf.target hi ha (k := k) (c := c) (by simp [hpc, AcceptPc.target]) (by simp [hpc, AcceptPc.conn])
      exact .inr ⟨c, hpc, by simpa [hi.test] using hroom⟩
    · exact absurd rfl hroom
  · exact absurd trivial hroom

/-- Some part advances; where the accept loop is about to read an unsettled
state, the controller settles it. -/
theorem Flowing.goes (hi : Settled decode cookie params s t) (ha : Admissible decode cookie s t)
    (hf : Flowing decode cookie s t) (h : s.Advances decode cookie) : s.Goes decode cookie ∨ s.Jammed t := by
  obtain ⟨e, u, hd, hsmooth, hstep⟩ := h
  have howns : e.within s.test = true := by
    unfold drives at hd
    unfold SessionEvent.within
    split at hd <;> simp_all
  have hsound : Sound s e := by
    unfold drives at hd
    split at hd <;> simp_all [Sound]
  by_cases hu : Undelayed s e
  · exact (hf.room hi ha hd).imp_left (fun hroom => ⟨e, u, howns, ⟨⟨hsmooth, hu, hsound⟩, hroom⟩, hstep⟩)
  have hlock : ∃ t₀, e = .server .lock ∧ s.server.reads = some t₀ ∧ t₀.settled = false := by
    unfold Undelayed at hu
    split at hu
    · cases hr : s.server.reads with
      | none => simp [hr] at hu
      | some t₀ => exact ⟨t₀, rfl, rfl, by simpa [hr] using hu⟩
    · exact absurd trivial hu
  obtain ⟨t₀, rfl, hreads, hset⟩ := hlock
  obtain ⟨v, hv⟩ : ∃ v, s.server.step decode .lock = some v := by
    simp only [step, if_true, Option.map_eq_some_iff] at hstep
    exact hstep.imp fun _ h => h.1
  obtain ⟨c, k, t₁, hpc, ht₁, hl⟩ := Server.locks_of_step (Server.step_cases hv)
  obtain rfl : t₁ = t₀ := by simpa [Server.reads, hpc, ht₁] using hreads
  obtain ⟨rfl, -⟩ := hf.target hi ha (k := k) (c := c) (by simp [hpc, AcceptPc.target]) (by simp [hpc, AcceptPc.conn])
  -- the state is unsettled because its store is what the controller does next
  have hstore : (t₁.step .lock).isSome = true := by
    unfold ServerTest.settled at hset
    split at hset
    · rename_i hpc'
      simp [ServerTest.step, hl, hpc']
    · cases hset
  exact .inl (.controller ht₁ hf.serving rfl hstore)

/-- Where the client stands when it cannot go on after the start: it has read
all that was written, or it is done. -/
theorem Sustained.client_goes (hi : Sustained decode cookie params s t) (hun : ¬ s.Unstarted t) :
    s.Goes decode cookie ∨ (s.client.pc = .selecting ∧ s.client.heard = t.sent) ∨
      (∃ results, s.client.pc = .readingResults results ∧ s.client.heard = t.sent) ∨
      ∃ r, s.client.pc = .returned (some r) := by
  have hclient := Pair.client_reach hi.settled.pair
  have hlinked := Pair.linked_reach hi.settled.pair
  have hready : (s.client.pc = .selecting ∨ ∃ results, s.client.pc = .readingResults results) →
      s.Goes decode cookie ∨ s.client.heard = t.sent := by
    intro hpc
    cases hm : (Pair.mk t s.client).toClient with
    | none => exact .inr (hlinked.heard.eq_of_length_le (List.getElem?_eq_none_iff.1 hm))
    | some m =>
      refine .inl (.client (.read (.ok m)) rfl (by simp) (by simp) ?_ ?_)
      · rw [delivers_eq hi.settled.test]
        simp [Pair.delivers, hm]
      · rcases hpc with hpc | ⟨results, hpc⟩ <;> simp [ClientTest.step, hpc]
  rcases (ClientTest.draining_reach hclient).acts
      (fun _ _ => ClientTest.joinable hclient hi.settled.gathering.ranked.toNumbered) with
    ⟨e, he, hs⟩ | ⟨hpc, -⟩ | hpc | ⟨results, hpc⟩ | hr
  · exact .inl (.clientController hi.settled.test he hs)
  · exact (hready (.inl hpc)).imp_right (fun h => .inl ⟨hpc, h⟩)
  · -- it connects before the start only
    obtain ⟨hg, -⟩ := hi.settled.gathering.connecting hpc
    refine absurd (.inr ?_) hun
    simp only [ClientTest.nextState] at hg
    cases hs : s.client.state <;> simp_all [State.gathering, State.rank]
  · exact (hready (.inr ⟨results, hpc⟩)).imp_right (fun h => .inr (.inl ⟨results, hpc, h⟩))
  · refine .inr (.inr (.inr ?_))
    cases hpc : s.client.pc with
    | returned printed =>
      cases printed with
      | none => exact absurd hpc hi.flowing.client.unfailed
      | some r => exact ⟨r, rfl⟩
    | _ => simp [ClientTest.returned, hpc] at hr

/-- Where the server stands when it cannot go on after the start: it waits for
results that are not written, or it is done. -/
theorem Sustained.server_goes (hi : Sustained decode cookie params s t) (hacc : s.server.pc = .accepting)
    (hun : ¬ s.Unstarted t) :
    s.Goes decode cookie ∨ (∃ results, t.pc = .readingResults results ∧ s.client.sent = []) ∨
      ∃ r, t.pc = .returned (some r) := by
  have hserving : s.server.pc ≠ .returned := by simp [hacc]
  obtain ⟨es, hrun⟩ := hi.freed
  obtain ⟨hphase, hsound⟩ := ServerTest.sound_run hrun
  by_cases hr : t.returned = true
  · refine .inr (.inr ?_)
    cases hpc : t.pc with
    | returned printed =>
      cases printed with
      | none => exact absurd hpc hi.flowing.server.unfailed.1
      | some r => exact ⟨r, rfl⟩
    | _ => simp [ServerTest.returned, hpc] at hr
  have hr : t.returned = false := by simpa using hr
  obtain ⟨hk, he, hstaffed, hsteered⟩ := hsound hr
  rcases hsteered.acts (hi.settled.unlocked hacc) with ⟨te, hte, hs⟩ | ⟨hpc, hq⟩ | ⟨results, hpc⟩ | hr'
  · exact .inl (.controller hi.settled.test hserving hte hs)
  · -- a stream of the running load is still there
    have hrun' : t.state = .running := by
      simp only [ServerTest.Phase, hpc] at hphase
      rcases hphase.2 with hs | hs
      · refine absurd (.inl ?_) hun
        simp [hs, State.rank]
      · exact hs
    have hold : t.oldState = .running := by
      simp only [ServerTest.Phase, hpc] at hphase
      exact hphase.1.trans hrun'
    obtain ⟨i, w, -, -, we, hof, hs⟩ := ServerTest.listed_enabled hk he hstaffed hold hq
      (hsteered.listed (by simpa only [ServerTest.Busy, hpc] using hrun'))
    have hloads : t.Loads (.worker i we) := fun _ => .inl hold
    refine .inl (.server hi.settled.test hserving _ rfl rfl hloads ?_ ?_ hs)
    · intro j we' heq
      obtain ⟨-, rfl⟩ := ServerEvent.worker.inj heq
      refine ⟨?_, by simp [hq, internalProtBuffer]⟩
      rintro rfl
      cases hof
    · simp [delivers, Pair.delivers, hi.settled.test]
  · cases hm : (Pair.mk t s.client).toServer with
    | some m =>
      refine .inl (.server hi.settled.test hserving (.read (some m)) rfl rfl trivial (by simp) ?_ ?_)
      · rw [delivers_eq hi.settled.test]
        simp [Pair.delivers, hm]
      · simp only [ServerTest.step, hpc]
        cases m <;> rfl
    | none =>
      have hstage := (Pair.exchanging_reach hi.settled.pair).server
      simp only [ServerTest.Stage, hpc] at hstage
      refine .inr (.inl ⟨results, hpc, ?_⟩)
      simpa [Pair.toServer, hstage.1] using hm
  · rw [hr] at hr'
    cases hr'

/-- After the start both ends wait for each other in no state: one of them has
something to read, or both have printed. -/
theorem Sustained.finished (hi : Sustained decode cookie params s t)
    (hs : (∃ results, t.pc = .readingResults results ∧ s.client.sent = []) ∨ ∃ r, t.pc = .returned (some r))
    (hc : (s.client.pc = .selecting ∧ s.client.heard = t.sent) ∨
      (∃ results, s.client.pc = .readingResults results ∧ s.client.heard = t.sent) ∨
      ∃ r, s.client.pc = .returned (some r)) : s.Finished t := by
  have hex := Pair.exchanging_reach hi.settled.pair
  have hclient := hex.client
  have hphase := hex.phase
  have hsaid := hex.said
  -- a server past its loop has announced it
  have htold : ∃ ms, Script t.cookie .exchangeResults ms ∧ (t.sent = ms ∨ ∃ results, t.sent = ms ++ [.sendResults results]) := by
    rcases hs with ⟨results, hpc, -⟩ | ⟨r, hpc⟩
    · simp only [ServerTest.Phase, hpc] at hphase
      simp only [ServerTest.Said, hpc, hphase] at hsaid
      exact ⟨_, hsaid, .inl rfl⟩
    · simp only [ServerTest.Said, hpc] at hsaid
      obtain ⟨ms, hms, hsent⟩ := hsaid
      exact ⟨ms, hms, .inr ⟨_, hsent⟩⟩
  obtain ⟨ms, hms, hsent⟩ := htold
  rcases hc with ⟨hpc, hheard⟩ | ⟨results, hpc, hheard⟩ | ⟨⟨localC, remoteC⟩, hpc⟩
  · -- the client has heard that announcement
    simp only [ClientTest.Stage, hpc] at hclient
    refine absurd ?_ hclient.2.1
    rw [hheard]
    rcases hsent with hsent | ⟨r, hsent⟩ <;> rw [hsent]
    · exact hms.mem (by simp)
    · exact List.mem_append_left _ (hms.mem (by simp))
  · simp only [ClientTest.Stage, hpc] at hclient
    obtain ⟨⟨got, -, hgot⟩, hsentC, -⟩ := hclient
    rcases hs with ⟨_, -, hnone⟩ | ⟨⟨localS, remoteS⟩, hpcS⟩
    · simp [hnone] at hsentC
    · -- the last message of the server is not the one it has heard last
      simp only [ServerTest.Said, hpcS] at hsaid
      obtain ⟨ms', -, hsent'⟩ := hsaid
      have hlast := congrArg List.getLast? (hgot.symm.trans (hheard.trans hsent'))
      simp at hlast
  · rcases hs with ⟨_, -, hnone⟩ | ⟨⟨localS, remoteS⟩, hpcS⟩
    · simp only [ClientTest.Stage, hpc] at hclient
      simp [hnone] at hclient
    · obtain ⟨rfl, rfl⟩ := hex.crossed hpcS hpc
      exact ⟨_, _, hpcS, hpc⟩

theorem Sustained.goes_on (hi : Sustained decode cookie params s t)
    (hello : ∃ socket, names decode socket cookie = true) :
    s.Goes decode cookie ∨ s.Finished t ∨ s.Jammed t := by
  obtain ⟨hset, ha, hf, -⟩ := id hi
  have hgoes : s.Advances decode cookie → s.Goes decode cookie ∨ s.Finished t ∨ s.Jammed t :=
    fun h => (hf.goes hset ha h).imp_right .inr
  by_cases hacc : s.server.pc = .accepting
  · by_cases hun : s.Unstarted t
    · obtain ⟨_, _, hreach⟩ := Server.test_reach hset.server _ t hset.test
      rcases hf.client_moves hset hacc (ServerTest.current_reach hreach).2.2 hun hello with h | ⟨hpc, hheard⟩
      · exact hgoes h
      · exact hgoes (hf.server_moves hset hacc hun hpc hheard)
    · rcases hi.server_goes hacc hun with h | hs
      · exact .inl h
      rcases hi.client_goes hun with h | hc
      · exact .inl h
      exact .inr (.inl (hi.finished hs hc))
  · exact hgoes (hf.loop_moves hset ha hacc)

/-- The channel of a test that fits it is not full while one of its connections
is on the way. -/
theorem Sustained.unjammed (hi : Sustained decode cookie params s t)
    (hn : (ServerTest.new cookie params).totalNeededStreams ≤ internalProtBuffer) : ¬ s.Jammed t := by
  rintro ⟨c, hpc, hfull⟩
  obtain ⟨-, hr⟩ := hi.flowing.target hi.settled hi.admissible (k := s.test) (c := c) (by simp [hpc, AcceptPc.target])
    (by simp [hpc, AcceptPc.conn])
  exact Nat.not_le.2 (hi.settled.connection_room hn hpc hr) hfull

end Session

namespace Session
variable {decode : List UInt8 → Option ClientEnvelope} {cookie : String}

instance (s : Session) (e : SessionEvent) : Decidable (Sound s e) := by
  unfold Sound
  split <;> infer_instance

instance (s : Session) (e : SessionEvent) : Decidable (Clean decode cookie s e) := by
  unfold Clean
  infer_instance

instance (s : Session) (e : SessionEvent) : Decidable (NoticeRoom s e) := by
  unfold NoticeRoom
  split <;> infer_instance

instance (s : Session) (e : SessionEvent) : Decidable (Roomy s e) := by
  unfold Roomy
  infer_instance

/-- The one stream is made and the load starts at both ends. -/
def loadedRun : List SessionEvent :=
  hearRun ++
    [.dial (Server.peer [.clientMessage (.hello "c")] false), .arrive, .server .lock, .server .read,
      .server (.write true), .client (.connect (some 1)), .server .send] ++
    ([.recv, .write true, .lock, .lock] : List ServerEvent).map (fun e => .server (.test 0 e)) ++
    ([.read (.ok (.setState .running)), .lock, .lock] : List ClientEvent).map .client

end Session

def Server.sixEnvelopes : List ClientEnvelope :=
  [.clientMessage (.hello "c"), .clientMessage (.sendParameters (uploadParams 6))]

/-- The accept loop welcomes the client's next stream. -/
def Session.welcomeRun : List SessionEvent :=
  [.dial (Server.peer [.clientMessage (.hello "c")] false), .arrive, .server .lock, .server .read, .server (.write true)]

/-- With six streams the other outcome is there: five of them are in the channel
of a server's controller that is late, and the sixth is at hand. -/
theorem session_jams : ∃ decode w es s t, Session.Created decode "c" (uploadParams 6) 0 w ∧
    Run (Session.step decode) (fun s e => Session.Clean decode "c" s e ∧ Session.Roomy s e)
      (Session.new w 0 "c" (uploadParams 6)) es s ∧ s.server.tests[0]? = some t ∧ s.Jammed t := by
  obtain ⟨w, s, hw, hrun, hp⟩ := Session.exists_session (decodeAmong ClientEnvelope.encode Server.sixEnvelopes)
    (fun s e => Session.Clean (decodeAmong ClientEnvelope.encode Server.sixEnvelopes) "c" s e ∧ Session.Roomy s e)
    (Server.peer Server.sixEnvelopes false) "c" (uploadParams 6)
    (Session.hearRun ++ [1, 2, 3, 4, 5].flatMap (fun c =>
        Session.welcomeRun ++ [.client (.connect (some c)), .server .send]) ++ Session.welcomeRun)
    (fun s => s.server.pc = .handing 6 s.test ∧
      (s.server.tests[0]?).any (fun t => internalProtBuffer ≤ t.queue.length)) (by decide +kernel)
  simp only [Option.any_eq_true, decide_eq_true_eq] at hp
  obtain ⟨hpc, t, ht, hq⟩ := hp
  exact ⟨_, w, _, s, t, hw, hrun, ht, 6, hpc, hq⟩

end Netperf
