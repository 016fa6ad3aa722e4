import Netperf.ClientTest
import Netperf.Registration
import Netperf.ServerTest
/-!
# The number of streams

Both ends add the two counts of a test in `u16`. The client connects until it
has that many streams, the server starts the load at the stream that makes it
that many.
-/

namespace Netperf

open Maps Runs

/-- The streams of a test, in unbounded integers. -/
def PerfTest.neededStreams (t : PerfTest) : Nat := t.numSendStreams.toNat + t.numReceiveStreams.toNat

/-- Only a bidirectional test has two counts to add. -/
def TestParameters.Countable (params : TestParameters) : Prop :=
  params.direction = .bidirectional → params.parallel.toNat < 2 ^ 15

namespace TestController

variable {c : TestController} {streams : List Nat}

/-- Streams registered one after the other. -/
def registerAll (c : TestController) (streams : List Nat) : TestController := streams.foldl createAndRegisterStreamWorker c

theorem registerAll_concat (s : Nat) :
    c.registerAll (streams ++ [s]) = (c.registerAll streams).createAndRegisterStreamWorker s := by
  unfold registerAll
  rw [List.foldl_append]
  rfl

/-- From an empty map every stream gets its place as its id, and its direction from that. -/
theorem registerAll_spec (streams : List Nat) (hn : Numbered c) (h0 : c.workers = []) (hs : c.streams = ∅) :
    Numbered (c.registerAll streams) ∧ (c.registerAll streams).config = c.config ∧
      len (c.registerAll streams).streams = streams.length ∧
      (c.registerAll streams).workers.map Worker.isSending = (List.range streams.length).map c.isSendingAt := by
  induction streams using List.reverseRecOn with
  | nil => simp [registerAll, hn, h0, hs]
  | append_singleton streams s ih =>
    obtain ⟨hn, hc, hlen, hsend⟩ := ih
    have hw : (c.registerAll streams).workers.length = streams.length := by simpa using congrArg List.length hsend
    obtain ⟨hn', hlen'⟩ := hn.register (by rw [hlen, hw]) s
    rw [registerAll_concat]
    refine ⟨hn', ?_, ?_, ?_⟩
    · rw [← hc]
      rfl
    · rw [hlen', hw, List.length_append]
      rfl
    · have hnext : (c.registerAll streams).nextIsSending = c.isSendingAt streams.length := by
        rw [PerfTest.nextIsSending, hlen, PerfTest.isSendingAt_config hc]
      simp [createAndRegisterStreamWorker, List.range_succ, hsend, hnext]

/-- The senders among the streams registered. -/
theorem countP_registerAll (streams : List Nat) (hn : Numbered c) (h0 : c.workers = []) (hs : c.streams = ∅) (p : Bool → Bool) :
    (c.registerAll streams).workers.countP (fun w => p w.isSending) =
      (List.range streams.length).countP (fun i => p (c.isSendingAt i)) := by
  obtain ⟨-, -, -, hsend⟩ := registerAll_spec streams hn h0 hs
  have h := congrArg (List.countP p) hsend
  rwa [List.countP_map, List.countP_map] at h

end TestController

/-! ## The client -/

namespace ClientTest

variable {t u : ClientTest} {streams : List Nat}

/-- Connections that all succeed. -/
def connects (streams : List Nat) : List ClientEvent := streams.map (fun s => .connect (some s))

/-- `create_streams` runs from `t` to the end of its loop. -/
def Opens (t : ClientTest) (streams : List Nat) (u : ClientTest) : Prop :=
  exec step t.createStreams (connects streams) = some u ∧ u.pc = .selecting

theorem createStreams_pc_missing (h : len t.streams < t.totalNeededStreams) : t.createStreams.pc = .connecting := by
  simp [createStreams, h]

theorem createStreams_pc_full (h : ¬ len t.streams < t.totalNeededStreams) : t.createStreams.pc = .selecting := by
  simp [createStreams, h]

/-- A connection that comes while streams are missing. -/
theorem step_connects (h : len t.streams < t.totalNeededStreams) (s : Nat) :
    t.createStreams.step (.connect (some s)) =
      some { t.createStreams with toTestController := t.createAndRegisterStreamWorker s }.createStreams := by
  simp only [step, createStreams_pc_missing h]
  rfl

theorem step_connects_full (h : ¬ len t.streams < t.totalNeededStreams) (s : Option Nat) :
    t.createStreams.step (.connect s) = none := by
  simp only [step, createStreams_pc_full h]

/-- The loop is over after exactly the streams that were missing. -/
theorem opens_iff (streams : List Nat) (hn : t.Numbered) (hw : len t.streams = t.workers.length) (hle : len t.streams ≤ t.totalNeededStreams) :
    (∃ u, Opens t streams u) ↔ len t.streams + streams.length = t.totalNeededStreams := by
  induction streams generalizing t with
  | nil =>
    simp only [Opens, connects, List.map_nil, exec, Option.some.injEq, exists_eq_left', List.length_nil]
    by_cases h : len t.streams < t.totalNeededStreams
    · rw [createStreams_pc_missing h]
      exact iff_of_false (by simp) (by omega)
    · rw [createStreams_pc_full h]
      exact iff_of_true rfl (by omega)
  | cons s streams ih =>
    by_cases h : len t.streams < t.totalNeededStreams
    · obtain ⟨hn', hlen'⟩ := hn.register hw s
      have hnext := ih (t := { t.createStreams with toTestController := t.createAndRegisterStreamWorker s }) hn'
        (by rw [hlen']; simp [TestController.createAndRegisterStreamWorker])
        (by rw [hlen', ← hw]; exact h)
      unfold Opens connects at hnext ⊢
      rw [List.map_cons, exec, step_connects h, Option.bind_some, hnext, hlen', ← hw, List.length_cons]
      change _ = t.totalNeededStreams ↔ _
      omega
    · unfold Opens connects
      rw [List.map_cons, exec, step_connects_full h]
      simp only [Option.bind_none, reduceCtorEq, false_and, exists_false, List.length_cons, false_iff]
      omega

theorem opens_controller (h : Opens t streams u) : u.toTestController = t.registerAll streams := by
  obtain ⟨h, -⟩ := h
  induction streams generalizing t with
  | nil =>
    cases h
    rfl
  | cons s streams ih =>
    by_cases hm : len t.streams < t.totalNeededStreams
    · unfold connects at h ih
      rw [List.map_cons, exec, step_connects hm] at h
      exact ih h
    · unfold connects at h
      rw [List.map_cons, exec, step_connects_full hm] at h
      cases h

end ClientTest

/-! ## The server -/

namespace ServerTest

theorem foldl_acceptStream (t : ServerTest) (streams : List Nat) :
    (streams.foldl acceptStream t).toTestController = t.registerAll streams := by
  induction streams generalizing t with
  | nil => rfl
  | cons s streams ih => rw [List.foldl_cons, ih, acceptStream_toTestController]; rfl

theorem acceptStream_switches (t : ServerTest) (s : Nat) :
    (t.acceptStream s).pc = .writingState .running .propagate ↔ len (t.acceptStream s).streams = t.totalNeededStreams := by
  rw [acceptStream_toTestController]
  by_cases h : len (t.createAndRegisterStreamWorker s).streams = t.totalNeededStreams <;> simp [acceptStream, h]

theorem config_of_reach {t u : ServerTest} (h : Reach step t u) : u.config = t.config :=
  h.inv (fun v => v.config = t.config) rfl (fun _ _ _ hi hs => (config_of_step (step_cases hs)).trans hi)

end ServerTest

/-! ## The counts -/

variable {cookie : String} {role : Role} {params : TestParameters}

/-- What the two ends make of the counts of a test. -/
structure ExactCounts (cookie : String) (params : TestParameters) : Prop where
  opened : ∀ streams, (∃ u, (ClientTest.new cookie params).Opens streams u) ↔
    streams.length = (ClientTest.new cookie params).neededStreams
  switched : ∀ t, Reach ServerTest.step (ServerTest.new cookie params) t → ∀ s,
    ((t.acceptStream s).pc = .writingState .running .propagate ↔
      len (t.acceptStream s).streams = (ServerTest.new cookie params).neededStreams)
  /-- On the client the senders are the client-sending streams. -/
  clientSplit : params.direction = .bidirectional → ∀ streams u, (ClientTest.new cookie params).Opens streams u →
    u.workers.countP (fun w => w.isSending) = params.parallel.toNat ∧
      u.workers.countP (fun w => !w.isSending) = params.parallel.toNat
  /-- On the server they are the server-sending ones. -/
  serverSplit : params.direction = .bidirectional → ∀ streams : List Nat,
    streams.length = (ServerTest.new cookie params).neededStreams →
    (streams.foldl ServerTest.acceptStream (ServerTest.new cookie params)).workers.countP (fun w => w.isSending) =
        params.parallel.toNat ∧
      (streams.foldl ServerTest.acceptStream (ServerTest.new cookie params)).workers.countP (fun w => !w.isSending) =
        params.parallel.toNat

theorem PerfTest.totalNeededStreams_eq (t : PerfTest) : t.totalNeededStreams = t.neededStreams % 2 ^ 16 := by
  unfold totalNeededStreams neededStreams
  exact UInt16.toNat_add _ _

theorem neededStreams_new (cookie : String) (role : Role) (params : TestParameters) :
    (PerfTest.new cookie role params).neededStreams =
      if params.direction = .bidirectional then 2 * params.parallel.toNat else params.parallel.toNat := by
  unfold PerfTest.neededStreams PerfTest.new
  cases params.direction with
  | bidirectional => cases role <;> simp [Nat.two_mul]
  | _ => cases role <;> simp

/-- The sum fits exactly when the wrapped sum is the sum. -/
theorem countable_iff_fits (cookie : String) (role : Role) : params.Countable ↔ (PerfTest.new cookie role params).neededStreams < 2 ^ 16 := by
  have hp := params.parallel.toNat_lt
  rw [neededStreams_new]
  unfold TestParameters.Countable
  split
  · simp_all
    omega
  · simp_all

theorem totalNeededStreams_of_countable (cookie : String) (role : Role) (h : params.Countable) :
    (PerfTest.new cookie role params).totalNeededStreams = (PerfTest.new cookie role params).neededStreams := by
  rw [PerfTest.totalNeededStreams_eq, Nat.mod_eq_of_lt ((countable_iff_fits cookie role).1 h)]

/-- In a bidirectional test the first half goes one way and the second half the other. -/
theorem countP_isSendingAt (cookie : String) (hb : params.direction = .bidirectional) (role : Role) {n : Nat}
    (hn : n = 2 * params.parallel.toNat) :
    (List.range n).countP (fun i => (PerfTest.new cookie role params).isSendingAt i) = params.parallel.toNat ∧
      (List.range n).countP (fun i => !(PerfTest.new cookie role params).isSendingAt i) = params.parallel.toNat := by
  have hfirst := Lists.countP_lt_range params.parallel.toNat n
  have hrest := Lists.countP_not_lt_range params.parallel.toNat n
  unfold PerfTest.isSendingAt PerfTest.new
  cases role <;> simp only [hb] <;> simp <;> omega

theorem opens_new_iff (streams : List Nat) : (∃ u, (ClientTest.new cookie params).Opens streams u) ↔
    streams.length = (ClientTest.new cookie params).totalNeededStreams := by
  have h := ClientTest.opens_iff (t := ClientTest.new cookie params) streams
    (TestController.Numbered.new _ rfl) rfl (Nat.zero_le _)
  rwa [show len (ClientTest.new cookie params).streams = 0 from rfl, Nat.zero_add] at h

/-- What a test registers from the start splits in two halves. -/
theorem registerAll_split (hb : params.direction = .bidirectional) (role : Role) {streams : List Nat}
    (hlen : streams.length = (PerfTest.new cookie role params).neededStreams) :
    let ws := ((TestController.new (PerfTest.new cookie role params)).registerAll streams).workers
    ws.countP (fun w => w.isSending) = params.parallel.toNat ∧ ws.countP (fun w => !w.isSending) = params.parallel.toNat := by
  have hcount := TestController.countP_registerAll streams
    (TestController.Numbered.new (PerfTest.new cookie role params) rfl) rfl rfl
  rw [neededStreams_new, if_pos hb] at hlen
  obtain ⟨hfirst, hrest⟩ := countP_isSendingAt cookie hb role hlen
  exact ⟨(hcount id).trans hfirst, (hcount not).trans hrest⟩

theorem exactCounts_iff (cookie : String) (params : TestParameters) :
    (ExactCounts cookie params ↔ params.Countable) ∧
      (params.Countable ↔ ∀ role, (PerfTest.new cookie role params).neededStreams < 2 ^ 16) := by
  refine ⟨⟨?_, ?_⟩, ?_⟩
  · intro h
    have hopen := (opens_new_iff (List.replicate (ClientTest.new cookie params).totalNeededStreams 0)).2
      List.length_replicate
    have heq := (h.opened _).1 hopen
    rw [List.length_replicate, PerfTest.totalNeededStreams_eq] at heq
    refine (countable_iff_fits cookie .client).2 ?_
    have hlt := Nat.mod_lt (ClientTest.new cookie params).neededStreams (y := 2 ^ 16) (by decide)
    rwa [heq] at hlt
  · intro h
    have htotal (role : Role) := totalNeededStreams_of_countable cookie role h
    constructor
    · intro streams
      rw [opens_new_iff]
      exact Eq.congr_right (htotal .client)
    · intro t ht s
      rw [ServerTest.acceptStream_switches, PerfTest.totalNeededStreams_config (ServerTest.config_of_reach ht)]
      exact Eq.congr_right (htotal .server)
    · intro hb streams u hu
      have hlen := ((opens_new_iff streams).1 ⟨u, hu⟩).trans (htotal .client)
      rw [ClientTest.opens_controller hu]
      exact registerAll_split hb .client hlen
    · intro hb streams hlen
      rw [ServerTest.foldl_acceptStream]
      exact registerAll_split hb .server hlen
  · constructor
    · intro h role
      exact (countable_iff_fits cookie role).1 h
    · intro h
      exact (countable_iff_fits cookie .client).2 (h .client)

/-- 32768 streams each way: both sums wrap to zero, and the client opens none. -/
theorem bidirectional_opens_none :
    ∃ params : TestParameters, params = { uploadParams 32768 with direction := .bidirectional } ∧
      (ClientTest.new "c" params).neededStreams = 65536 ∧ (ServerTest.new "c" params).totalNeededStreams = 0 ∧
      (ClientTest.new "c" params).createStreams.pc = .selecting ∧ ¬ExactCounts "c" params := by
  have hpc : (ClientTest.new "c" { uploadParams 32768 with direction := .bidirectional }).createStreams.pc = .selecting := by
    decide +kernel
  refine ⟨_, rfl, by decide +kernel, by decide +kernel, hpc, ?_⟩
  intro h
  have hlen := (h.opened []).1 ⟨_, rfl, hpc⟩
  exact absurd hlen (by decide +kernel)

end Netperf
