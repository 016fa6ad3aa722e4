import Mathlib.Tactic.Ring
import Netperf.Effort
/-!
# A client whose server is gone

Nothing arrives any more: reads of the control socket fail, and no data
connection comes about. Whatever the server said before, and at whatever await
the controller is, it comes to an end after a bounded number of steps, provided
that no stream was given the id of another one.
-/

namespace Netperf

open Maps Runs Lists Effort

namespace ClientTest
variable {t u : ClientTest} {e : ClientEvent} {es fs : List ClientEvent} {cookie : String} {params : TestParameters}
  {n : Nat}

/-- What happens without a server: no message is read, and no stream made. -/
def Deserted (_ : ClientTest) : ClientEvent → Prop
  | .read (.ok _) | .connect (some _) => False
  | _ => True

/-! ## The channels are bounded -/

/-- No channel holds more than its capacity. -/
structure Capped (c : TestController) : Prop where
  queue : c.queue.length ≤ internalProtBuffer
  inboxes : ∀ w ∈ c.workers, w.inbox.length ≤ internalProtBuffer

theorem Capped.same {c d : TestController} (h : Capped c) (hq : d.queue.length ≤ c.queue.length)
    (hw : ∀ w ∈ d.workers, w ∈ c.workers ∨ w.inbox = []) : Capped d := by
  refine ⟨hq.trans h.queue, fun w hd => ?_⟩
  rcases hw w hd with hc | hnil
  · exact h.inboxes w hc
  · simp [hnil]

theorem Capped.broadcast {c : TestController} (h : Capped c) (m : WorkerMessage) : Capped (c.broadcastToStreams m) := by
  refine ⟨h.queue, fun w hw => ?_⟩
  obtain ⟨i, hget⟩ := List.getElem?_of_mem hw
  obtain ⟨v, hv, rfl⟩ := c.broadcast_origin hget
  have hle := h.inboxes v (List.mem_of_getElem? hv)
  unfold Worker.trySend
  split
  · split
    · exact hle
    · simp only [List.length_append, List.length_singleton]
      omega
  · exact hle

theorem Capped.workerStep {c d : TestController} (h : Capped c) {alive o : Bool} {i : Nat} {we : WorkerEvent}
    (hs : c.workerStep alive o i we = some d) : Capped d := by
  obtain ⟨w, w', hw, hstep, hcases⟩ := TestController.workerStep_cases hs
  have hin : ∀ v ∈ c.workers.set i w', v.inbox.length ≤ internalProtBuffer := by
    intro v hv
    rcases List.mem_or_eq_of_mem_set hv with hv | rfl
    · exact h.inboxes v hv
    · exact (Worker.step_inbox_le hstep).trans (h.inboxes w (List.mem_of_getElem? hw))
  rcases hcases with ⟨-, hq, rfl⟩ | ⟨-, rfl⟩
  · refine ⟨?_, hin⟩
    simp only [List.length_append, List.length_singleton]
    omega
  · exact ⟨h.queue, hin⟩

theorem capped_step (h : Step t e u) (hi : Capped t.toTestController) : Capped u.toTestController := by
  cases h with
  | startLoad => exact hi.broadcast _
  | finish =>
    have hcast := hi.broadcast .terminate
    exact ⟨hcast.queue, hcast.inboxes⟩
  | worker hw => exact hi.workerStep hw
  | connected =>
    refine hi.same (by simp) (fun w hw => ?_)
    rcases List.mem_append.1 hw with hw | hw
    · exact .inl hw
    · exact .inr (by rw [List.mem_singleton.1 hw])
  | intruded _ hq | terminated _ hq | unknown _ hq => exact hi.same (by simp [hq]) (fun _ hw => .inl hw)
  | joined | collected => exact hi.same (by simp) (fun w hw => .inl (by simpa using hw))
  | _ => exact hi.same (by simp) (fun w hw => .inl (by simpa using hw))

theorem capped_reach (h : Reach step (new cookie params) t) : Capped t.toTestController := by
  obtain ⟨es, hrun⟩ := h
  apply hrun.inv (fun t => Capped t.toTestController) ⟨by simp [new, TestController.new], by simp [new,
    TestController.new]⟩
  intro t e u hi _ h
  exact capped_step (step_cases h) hi

/-! ## What is left to do -/

/-- A step without the server costs effort, or ends the test. -/
def remaining (n : Nat) (t : ClientTest) : Nat := t.effort n + if t.returned then 0 else 1

/-- Facts about the streams that a step without the server keeps. -/
structure Stranded (n : Nat) (t : ClientTest) : Prop where
  ids : (t.workers.map Worker.id).Nodup
  workers : t.workers.length = n
  reach : ∃ cookie params, Reach step (new cookie params) t

theorem Stranded.collects (hi : Stranded n t) : ∃ js, Collects t js := by
  obtain ⟨cookie, params, es, hrun⟩ := hi.reach
  exact ⟨_, collects_run hrun hi.ids⟩

theorem Deserted.workers (h : Step t e u) (hd : Deserted t e) :
    u.workers.map Worker.id = t.workers.map Worker.id := by
  cases h with
  | startLoad | finish => simp [TestController.broadcast_ids]
  | connected => exact hd.elim
  | worker hw =>
    obtain ⟨w, w', hg, hs, hws, -⟩ := TestController.workerStep_spec hw
    simp [hws, TestController.set_map hg (Worker.step_spec hs).1]
  | _ => simp

theorem Stranded.step (hi : Stranded n t) (h : t.step e = some u) (hd : Deserted t e) : Stranded n u := by
  have hids := hd.workers (step_cases h)
  obtain ⟨cookie, params, hreach⟩ := hi.reach
  refine ⟨hids ▸ hi.ids, ?_, cookie, params, hreach.next h⟩
  rw [← hi.workers]
  simpa using congrArg List.length hids

theorem Stranded.remaining_step (hi : Stranded n t) (h : t.step e = some u) (hd : Deserted t e) :
    u.remaining n + 1 ≤ t.remaining n := by
  have hstep := step_cases h
  by_cases he : ∃ err, e = .read (.error err)
  · obtain ⟨err, rfl⟩ := he
    cases hstep with
    | failed hpc =>
      simp only [remaining, effort, returned, hpc, ClientPc.effort, if_true, Bool.false_eq_true, if_false]
      omega
    | readOther hpc =>
      simp only [remaining, effort, returned, hpc, ClientPc.effort, if_true, Bool.false_eq_true, if_false]
      omega
  · obtain ⟨js, hc⟩ := hi.collects
    have hlen := hc.recorded.listed.len_le.trans hi.workers.le
    have hcost := effort_step hstep hi.workers.le hlen (fun err herr => he ⟨err, herr⟩)
    have hheard : u.heard = t.heard := by
      rcases heard_of_step hstep with hr | ⟨m, rfl, -⟩
      · exact hr
      · exact hd.elim
    have hgrant : e.granted n = 0 := by
      unfold ClientEvent.granted
      split
      · exact hd.elim
      · rfl
    have hmono : u.returned = false → t.returned = false := returned_of_step hstep
    rw [hheard, hgrant] at hcost
    unfold remaining
    cases hu : u.returned with
    | true =>
      simp only [if_true]
      split <;> omega
    | false =>
      simp only [hmono hu, Bool.false_eq_true, if_false]
      omega

theorem Stranded.remaining_le (hi : Stranded n t) : t.remaining n ≤ 6 * n ^ 2 + 86 * n + 169 := by
  obtain ⟨js, hc⟩ := hi.collects
  obtain ⟨cookie, params, hreach⟩ := hi.reach
  have hcap := capped_reach hreach
  have hqueue : (t.queue.map (ControllerMessage.effort n)).sum ≤ internalProtBuffer * connection n := by
    refine (List.sum_le_card_nsmul _ (connection n) ?_).trans ?_
    · intro x hx
      obtain ⟨m, -, rfl⟩ := List.mem_map.1 hx
      cases m with
      | createStream => exact le_rfl
      | streamTerminated =>
        simp only [ControllerMessage.effort, connection]
        omega
    · simpa using Nat.mul_le_mul_right _ hcap.queue
  have hworkers : (t.workers.map (Worker.effort n)).sum ≤ n * (notice n + 4 + internalProtBuffer) := by
    rw [← hi.workers]
    refine (List.sum_le_card_nsmul _ (notice t.workers.length + 4 + internalProtBuffer) ?_).trans ?_
    · intro x hx
      obtain ⟨w, hw, rfl⟩ := List.mem_map.1 hx
      have hin := hcap.inboxes w hw
      unfold Worker.effort
      cases w.pc <;> simp only [WorkerPc.effort] <;> omega
    · simp
  have hpc : t.pc.effort n ≤ clientTurn n + 1 := by
    cases hpc : t.pc with
    | collecting pending =>
      have hlen : len pending ≤ n := by
        have hlisted : TestController.Listed { t.toTestController with streams := pending } :=
          fun id ref hl => hc.pending pending id ref hpc hl
        exact hlisted.len_le.trans hi.workers.le
      simp only [ClientPc.effort, clientTurn]
      omega
    | _ =>
      simp only [ClientPc.effort, clientTurn]
      omega
  have hone : t.remaining n ≤ t.effort n + 1 := by
    unfold remaining
    split <;> omega
  calc t.remaining n ≤ t.effort n + 1 := hone
    _ ≤ (clientTurn n + 1) + (internalProtBuffer * connection n + n * (notice n + 4 + internalProtBuffer)) + 1 :=
      Nat.add_le_add_right (Nat.add_le_add hpc (Nat.add_le_add hqueue hworkers)) 1
    _ = 6 * n ^ 2 + 86 * n + 169 := by
      simp only [clientTurn, connection, notice, announcement, serverTurn, message, internalProtBuffer]
      ring

/-- Until it returns, the controller has a step to take by itself, or sees that
its server is gone. -/
theorem Stranded.goes (hi : Stranded n t) (hr : t.returned = false) : ∃ e, Deserted t e ∧ (t.step e).isSome = true := by
  obtain ⟨cookie, params, hreach⟩ := hi.reach
  obtain ⟨js, hc⟩ := hi.collects
  rcases (draining_reach hreach).acts (fun id ref hpc => (hc.joining id ref hpc).2) with
    ⟨e, he, hs⟩ | ⟨hpc, -⟩ | hpc | ⟨results, hpc⟩ | hr'
  · refine ⟨e, ?_, hs⟩
    unfold ClientEvent.ofController at he
    split at he <;> trivial
  · exact ⟨.read (.error .io), trivial, by simp [ClientTest.step, hpc]⟩
  · exact ⟨.connect none, trivial, by simp [ClientTest.step, hpc]⟩
  · exact ⟨.read (.error .io), trivial, by simp [ClientTest.step, hpc]⟩
  · rw [hr] at hr'
    cases hr'

/-- Whatever the client has been told, it does not outlive its server: at most
`6 n² + 86 n + 169` steps are left, and until it has returned there is one. -/
theorem deserted_client_returns (h : Run step Any (new cookie params) es t) (hids : (t.workers.map Worker.id).Nodup)
    (hd : Run step Deserted t fs u) :
    fs.length ≤ 6 * t.workers.length ^ 2 + 86 * t.workers.length + 169 ∧
      (u.returned = false → ∃ e, Deserted u e ∧ (u.step e).isSome = true) := by
  have h0 : Stranded t.workers.length t := ⟨hids, rfl, cookie, params, h.reach⟩
  obtain ⟨hi, hcost⟩ := hd.countP_add_le (fun _ => true) (Stranded t.workers.length) (remaining t.workers.length) h0
    (fun _ _ _ hi hc hs => ⟨hi.step hs hc, hi.remaining_step hs hc⟩)
  have hle := h0.remaining_le
  rw [List.countP_true] at hcost
  exact ⟨by omega, hi.goes⟩

/-- A client whose server is gone when its only stream has started. -/
theorem deserted_client_returns_loading : ∃ es t u, Run step Any (new "c" (uploadParams 1)) es t ∧
    t.workers.length = 1 ∧ Run step Deserted t [.read (.error .io)] u ∧
      ([ClientEvent.read (.error .io)].length ≤ 6 * t.workers.length ^ 2 + 86 * t.workers.length + 169 ∧
        (u.returned = false → ∃ e, Deserted u e ∧ (u.step e).isSome = true)) := by
  obtain ⟨t, hrun, ht⟩ := exists_run_of_exec step Any (new "c" (uploadParams 1))
    [.lock, .lock, .read (.ok (.setState (.createStreams "c"))), .lock, .lock, .connect (some 0),
      .read (.ok (.setState .running)), .lock, .lock]
    (fun t => t.workers.map Worker.id = [0] ∧ t.pc = .selecting) (by decide +kernel)
  simp only [decide_eq_true_eq] at ht
  obtain ⟨hids, hpc⟩ := ht
  have hfail : Run step Deserted t [.read (.error .io)] _ :=
    .snoc .nil trivial (by simp only [step, hpc]; rfl)
  have hlen : t.workers.length = 1 := by simpa using congrArg List.length hids
  exact ⟨_, t, _, hrun, hlen, hfail, deserted_client_returns hrun (by simp [hids]) hfail⟩

end ClientTest

end Netperf
