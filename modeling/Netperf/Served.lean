import Netperf.Alignment
import Netperf.Setup
/-!
# The order in which a server serves

The accept loop answers connections in the order in which they came in, each at
most once, and makes tests one after another: the control connection of a test,
then its data connections, then the control connection of the next test.
-/

namespace Netperf

open Frames Runs Lists

/-- The connection at hand, when it has been welcomed. -/
def AcceptPc.invited : AcceptPc → Option Nat
  | .params c _ _ | .handing c _ => some c
  | _ => none

namespace Server
variable {decode : List UInt8 → Option ClientEnvelope} {s u : Server} {e : NetEvent} {c : Nat} {controls : List Nat}

/-- The data connections that each test was handed, in order. -/
def given (s : Server) : List (List Nat) := s.tests.map ServerTest.connections

/-- The connections of all tests, the control connection of each before its data connections. -/
def served (controls : List Nat) (given : List (List Nat)) : List Nat := (List.zipWith List.cons controls given).flatten

/-! ## The answers -/

/-- The answers go to the connections in order, and one that is still at hand
has been welcomed. -/
structure Answering (s : Server) : Prop where
  ascending : (s.answers.map Prod.fst).Pairwise (· < ·)
  known : ∀ c env, (c, env) ∈ s.answers → c < s.conns.length ∧
    (s.pc.conn = some c → s.pc.invited = some c ∧ env = .serverMessage .welcome)
  invited : ∀ c, s.pc.invited = some c → (c, .serverMessage .welcome) ∈ s.answers

theorem conn_of_invited {pc : AcceptPc} (h : pc.invited = some c) : pc.conn = some c := by
  cases pc <;> simp_all [AcceptPc.invited, AcceptPc.conn]

/-- A step answers nothing, or the connection at hand, which had no answer. -/
theorem answers_cases (h : Step decode s e u) :
    u.answers = s.answers ∨ ∃ c env, u.answers = s.answers ++ [(c, env)] ∧ s.pc.conn = some c ∧ s.pc.invited = none ∧
      (u.pc.conn = some c → u.pc.invited = some c ∧ env = .serverMessage .welcome) := by
  cases h with
  | welcomed hpc | invited hpc =>
    exact .inr ⟨_, _, rfl, by simp [hpc, AcceptPc.conn], by simp [hpc, AcceptPc.invited], fun _ => ⟨rfl, rfl⟩⟩
  | @denied _ ok hpc | @deniedHeld _ _ ok hpc =>
    cases ok with
    | false => exact .inl rfl
    | true =>
      refine .inr ⟨_, _, rfl, by simp [hpc, AcceptPc.conn], by simp [hpc, AcceptPc.invited], fun hc => ?_⟩
      simp [AcceptPc.conn] at hc
  | handed _ hv =>
    obtain ⟨_, _, -, -, -, -, rfl⟩ := handOver_eq hv
    exact .inl rfl
  | _ => exact .inl rfl

/-- A welcomed connection stays so while it is at hand. -/
theorem invited_stays (h : Step decode s e u) (hi : s.pc.invited = some c) (hc : u.pc.conn = some c) :
    u.pc.invited = some c := by
  cases h <;> simp_all [AcceptPc.invited, AcceptPc.conn, fail]

theorem invited_origin (h : Step decode s e u) (hi : u.pc.invited = some c) :
    s.pc.invited = some c ∨ (c, .serverMessage .welcome) ∈ u.answers := by
  cases h <;> simp_all [AcceptPc.invited, fail]

theorem answering_step (h : Step decode s e u) (hw : Wired s) (hi : Answering s) : Answering u := by
  have hold : ∀ c env, (c, env) ∈ s.answers → c < u.conns.length ∧
      (u.pc.conn = some c → u.pc.invited = some c ∧ env = .serverMessage .welcome) := by
    intro c env hm
    obtain ⟨hlt, hat⟩ := hi.known c env hm
    refine ⟨hlt.trans_le (conn_step h).1, fun hc => ?_⟩
    -- an answered connection that is still at hand was welcomed
    by_cases hbefore : s.pc.conn = some c
    · obtain ⟨hinv, henv⟩ := hat hbefore
      exact ⟨invited_stays h hinv hc, henv⟩
    · exact absurd hc (away_step h hlt hbefore)
  have hinvited : ∀ c, u.pc.invited = some c → (c, .serverMessage .welcome) ∈ u.answers := by
    intro c hc
    rcases invited_origin h hc with hbefore | hm
    · exact answers_kept h (hi.invited c hbefore)
    · exact hm
  rcases answers_cases h with hsame | ⟨c, env, hnew, hc, hinv, hu⟩
  · rw [hsame] at hinvited
    exact ⟨hsame ▸ hi.ascending, fun c env hm => hold c env (hsame ▸ hm), hsame ▸ hinvited⟩
  · have hlen := hw.conn c hc
    refine ⟨?_, fun c' env' hm => ?_, hinvited⟩
    · rw [hnew, List.map_append, List.pairwise_append]
      refine ⟨hi.ascending, List.pairwise_singleton _ _, fun a ha b hb => ?_⟩
      obtain ⟨⟨a, env'⟩, hm, rfl⟩ := List.mem_map.1 ha
      rw [List.map_singleton, List.mem_singleton] at hb
      obtain ⟨hlt, hat⟩ := hi.known a env' hm
      have hne : a ≠ c := by
        rintro rfl
        rw [(hat hc).1] at hinv
        cases hinv
      change a < b
      omega
    · rw [hnew] at hm
      rcases List.mem_append.1 hm with hm | hm
      · exact hold c' env' hm
      · obtain ⟨rfl, rfl⟩ := Prod.mk.inj (List.mem_singleton.1 hm)
        have hle := (conn_step h).1
        exact ⟨by omega, hu⟩

theorem answering_reach (h : Reach (step decode) init s) : Answering s := by
  obtain ⟨es, h⟩ := h
  induction h with
  | nil => exact ⟨by simp [init], by simp [init], by simp [init, AcceptPc.invited]⟩
  | snoc h _ hs ih => exact answering_step (step_cases hs) (wired_reach h.reach) ih

/-- A connection gets one answer at most. -/
theorem Answering.unique (hi : Answering s) {env env' : ServerEnvelope} (h : (c, env) ∈ s.answers)
    (h' : (c, env') ∈ s.answers) : env = env' := by
  have hnodup : (s.answers.map Prod.fst).Nodup := hi.ascending.imp Nat.ne_of_lt
  exact congrArg Prod.snd (List.inj_on_of_nodup_map hnodup h h' rfl)

/-! ## The tests -/

/-- A step that creates no test hands each its connections one by one. -/
theorem given_point (h : Step decode s e u) (hw : Wired s) (hlen : u.tests.length = s.tests.length) (i : Nat) :
    (s.given[i]? = none ∧ u.given[i]? = none) ∨ ∃ cs cs', s.given[i]? = some cs ∧ u.given[i]? = some cs' ∧
      ((cs' = cs ∧ ∀ c, s.pc = .handing c i → u.pc ≠ .accepting) ∨
        ∃ c, s.pc = .handing c i ∧ u.pc = .accepting ∧ cs' = cs ++ [c]) := by
  unfold given
  rw [List.getElem?_map, List.getElem?_map]
  by_cases hi : i < s.tests.length
  · have ht := List.getElem?_eq_getElem hi
    have ht' := List.getElem?_eq_getElem (hlen ▸ hi)
    refine .inr ⟨_, _, congrArg _ ht, congrArg _ ht', ?_⟩
    rcases connections_server_step h hw ht ht' with hsame | ⟨c, hpc, hu, -, hnew⟩
    · exact .inl hsame
    · exact .inr ⟨c, hpc, hu, hnew⟩
  · rw [List.getElem?_eq_none (Nat.le_of_not_lt hi), List.getElem?_eq_none (hlen ▸ Nat.le_of_not_lt hi)]
    exact .inl ⟨rfl, rfl⟩

theorem given_kept (h : Step decode s e u) (hw : Wired s) (hlen : u.tests.length = s.tests.length)
    (hno : ∀ c k, s.pc = .handing c k → u.pc ≠ .accepting) : u.given = s.given := by
  apply List.ext_getElem?
  intro i
  rcases given_point h hw hlen i with ⟨hs, hu⟩ | ⟨cs, cs', hs, hu, ⟨rfl, -⟩ | ⟨c, hpc, hacc, -⟩⟩
  · rw [hs, hu]
  · rw [hs, hu]
  · exact absurd hacc (hno c i hpc)

theorem given_handed (h : Step decode s e u) (hw : Wired s) (hlen : u.tests.length = s.tests.length) {k : Nat}
    (hpc : s.pc = .handing c k) (hu : u.pc = .accepting) : u.given = s.given.modify k (· ++ [c]) := by
  apply List.ext_getElem?
  intro i
  rw [List.getElem?_modify]
  rcases given_point h hw hlen i with ⟨hs, hu'⟩ | ⟨cs, cs', hs, hu', ⟨rfl, hno⟩ | ⟨c', hpc', -, rfl⟩⟩
  · rw [hs, hu']
    rfl
  · have hne : k ≠ i := by
      rintro rfl
      exact hno c hpc hu
    rw [hs, hu', Option.map_eq_map, Option.map_some, if_neg hne]
  · obtain ⟨rfl, rfl⟩ : c' = c ∧ i = k := by simpa [hpc] using hpc'.symm
    rw [hs, hu', Option.map_eq_map, Option.map_some, if_pos rfl]

/-- What a step hands over: nothing, a data connection to the test in flight, or
a control connection to a new test. -/
theorem given_step (h : Step decode s e u) (hw : Wired s) :
    (u.given = s.given ∧ u.inFlight = s.inFlight) ∨
      (∃ c k, s.pc = .handing c k ∧ u.pc = .accepting ∧ u.given = s.given.modify k (· ++ [c]) ∧ u.inFlight = s.inFlight) ∨
      ∃ c cookie socket params rest, s.pc = .params c cookie socket ∧ readTestParameters decode socket = .ok params rest ∧
        u.pc = .accepting ∧ u.tests = s.tests ++ [ServerTest.new cookie params] ∧ u.given = s.given ++ [[]] ∧
        u.inFlight = some s.tests.length := by
  by_cases hlen : u.tests.length = s.tests.length
  · have hin : u.inFlight = s.inFlight := by
      cases h with
      | created => simp at hlen
      | handed _ hv =>
        obtain ⟨_, _, -, -, -, -, rfl⟩ := handOver_eq hv
        rfl
      | _ => rfl
    by_cases hhand : ∃ c k, s.pc = .handing c k ∧ u.pc = .accepting
    · obtain ⟨c, k, hpc, hu⟩ := hhand
      exact .inr (.inl ⟨c, k, hpc, hu, given_handed h hw hlen hpc hu, hin⟩)
    · exact .inl ⟨given_kept h hw hlen fun c k hpc hu => hhand ⟨c, k, hpc, hu⟩, hin⟩
  · cases h with
    | created hpc hread =>
      refine .inr (.inr ⟨_, _, _, _, _, hpc, hread, rfl, rfl, ?_, rfl⟩)
      simp [given, ServerTest.connections, ServerTest.new, TestController.new]
    | handed _ hv =>
      obtain ⟨_, _, -, -, -, -, rfl⟩ := handOver_eq hv
      simp [release] at hlen
    | _ => simp [release, fail] at hlen

/-- A new test is the last one, and so is the one that gets a connection. -/
theorem served_new (hlen : controls.length = s.given.length) (c : Nat) :
    served (controls ++ [c]) (s.given ++ [[]]) = served controls s.given ++ [c] := by
  unfold served
  rw [List.zipWith_append hlen, List.flatten_append]
  rfl

theorem served_handed {given : List (List Nat)} {k : Nat} (hlen : controls.length = given.length)
    (hk : k + 1 = given.length) (c : Nat) :
    served controls (given.modify k (· ++ [c])) = served controls given ++ [c] := by
  obtain ⟨front, cs, rfl⟩ : ∃ front cs, given = front ++ [cs] := by
    rcases List.eq_nil_or_concat given with rfl | ⟨front, cs, rfl⟩
    · cases hk
    · exact ⟨front, cs, by simp⟩
  obtain ⟨before, d, rfl⟩ : ∃ before d, controls = before ++ [d] := by
    rcases List.eq_nil_or_concat controls with rfl | ⟨before, d, rfl⟩
    · simp at hlen
    · exact ⟨before, d, by simp⟩
  have hbefore : before.length = front.length := by simpa using hlen
  have hkf : k = front.length := by simpa using hk
  have hmodify : (front ++ [cs]).modify k (· ++ [c]) = front ++ [cs ++ [c]] := by
    rw [hkf]
    exact modify_last front (· ++ [c]) cs
  unfold served
  rw [hmodify, List.zipWith_append hbefore, List.zipWith_append hbefore]
  simp

/-- Connection `c` carried the cookie and the parameters that test `t` was made from. -/
def Requested (decode : List UInt8 → Option ClientEnvelope) (conns : List Source) (c : Nat) (t : ServerTest) : Prop :=
  ∃ socket rest params rest', conns[c]? = some socket ∧ readCookie decode socket = .ok t.cookie rest ∧
    readTestParameters decode rest = .ok params rest' ∧ t.config = (PerfTest.new t.cookie .server params).config

/-- The cookie at hand in `create_test` is what the connection carried. -/
def Presented (decode : List UInt8 → Option ClientEnvelope) (s : Server) : Prop :=
  ∀ c cookie rest, s.pc = .welcome c cookie rest ∨ s.pc = .params c cookie rest →
    ∃ socket, s.conns[c]? = some socket ∧ readCookie decode socket = .ok cookie rest

theorem presented_step (h : Step decode s e u) (hi : Presented decode s) : Presented decode u := by
  intro c cookie rest hpc
  cases h with
  | named hs hconn hread =>
    simp only [AcceptPc.welcome.injEq, reduceCtorEq, or_false] at hpc
    obtain ⟨rfl, rfl, rfl⟩ := hpc
    exact ⟨_, hconn, hread⟩
  | invited hs =>
    simp only [AcceptPc.params.injEq, reduceCtorEq, false_or] at hpc
    obtain ⟨rfl, rfl, rfl⟩ := hpc
    exact hi _ _ _ (.inl hs)
  | test => exact hi c cookie rest hpc
  | _ => simp [fail] at hpc

theorem presented_reach (h : Reach (step decode) init s) : Presented decode s := by
  obtain ⟨es, h⟩ := h
  induction h with
  | nil => simp [Presented, init]
  | snoc _ _ hs ih => exact presented_step (step_cases hs) ih

/-- How the tests go together with the connections; `controls` are the control
connections, one for each test. -/
structure Serves (decode : List UInt8 → Option ClientEnvelope) (s : Server) (controls : List Nat) : Prop where
  length : controls.length = s.given.length
  latest : ∀ k, s.inFlight = some k → k + 1 = s.given.length
  ascending : (served controls s.given).Pairwise (· < ·)
  known : ∀ c ∈ served controls s.given, c < s.conns.length ∧ s.pc.conn ≠ some c
  welcomed : ∀ c ∈ served controls s.given, (c, .serverMessage .welcome) ∈ s.answers
  requested : ∀ (k c : Nat) (t : ServerTest), controls[k]? = some c → s.tests[k]? = some t → Requested decode s.conns c t

theorem requested_step (h : Step decode s e u) (hw : Wired s) {t : ServerTest} {k : Nat}
    (hi : ∀ t, s.tests[k]? = some t → Requested decode s.conns c t) (hk : k < s.tests.length) (ht : u.tests[k]? = some t) :
    Requested decode u.conns c t := by
  have hkept : ∃ t', s.tests[k]? = some t' ∧ t.config = t'.config := by
    rcases tests_step h hw ht with ⟨t', ht', rfl | ⟨ev, hev, -⟩⟩ | ⟨hnone, -⟩
    · exact ⟨t, ht', rfl⟩
    · exact ⟨t', ht', ServerTest.config_of_step (ServerTest.step_cases hev)⟩
    · rw [List.getElem?_eq_getElem hk] at hnone
      cases hnone
  obtain ⟨t', ht', hconfig⟩ := hkept
  obtain ⟨socket, rest, params, rest', hconn, hread, hparams, hnew⟩ := hi t' ht'
  have hcookie : t.cookie = t'.cookie := congrArg Prod.fst hconfig
  rw [← hcookie] at hread hnew
  exact ⟨socket, rest, params, rest', conns_kept h hconn, hread, hparams, hconfig.trans hnew⟩

/-- The connection at hand comes last. -/
theorem Serves.concat (hi : Serves decode s controls) (h : Step decode s e u) (hw : Wired s) (ha : Answering s)
    (hc : s.pc.invited = some c) (hu : u.pc = .accepting) {all : List Nat} (hall : all = served controls s.given ++ [c]) :
    all.Pairwise (· < ·) ∧ (∀ d ∈ all, d < u.conns.length ∧ u.pc.conn ≠ some d) ∧
      ∀ d ∈ all, (d, .serverMessage .welcome) ∈ u.answers := by
  have hconn := conn_of_invited hc
  have hlast := hw.conn c hconn
  have hle := (conn_step h).1
  have hmem : ∀ d ∈ all, d ∈ served controls s.given ∨ d = c := by
    intro d hd
    rw [hall] at hd
    exact (List.mem_append.1 hd).imp_right List.mem_singleton.1
  refine ⟨?_, fun d hd => ⟨?_, by simp [hu, AcceptPc.conn]⟩, fun d hd => ?_⟩
  · rw [hall, List.pairwise_append]
    refine ⟨hi.ascending, List.pairwise_singleton _ _, fun a hm b hb => ?_⟩
    obtain rfl := List.mem_singleton.1 hb
    obtain ⟨hlt, hne⟩ := hi.known a hm
    have : a ≠ b := by
      rintro rfl
      exact hne hconn
    omega
  · rcases hmem d hd with hd | rfl
    · exact (hi.known d hd).1.trans_le hle
    · omega
  · rcases hmem d hd with hd | rfl
    · exact answers_kept h (hi.welcomed d hd)
    · exact answers_kept h (ha.invited d hc)

theorem serves_step (h : Step decode s e u) (hw : Wired s) (ha : Answering s) (hp : Presented decode s)
    (hi : Serves decode s controls) : ∃ controls, Serves decode u controls := by
  have hlen : s.given.length = s.tests.length := List.length_map ..
  have hold : ∀ (k c : Nat) (t : ServerTest), controls[k]? = some c → u.tests[k]? = some t → Requested decode u.conns c t := by
    intro k c t hk ht
    have hlt : k < s.tests.length := by
      rw [← hlen, ← hi.length]
      exact lt_of_getElem? hk
    exact requested_step h hw (fun t' ht' => hi.requested k c t' hk ht') hlt ht
  rcases given_step h hw with ⟨hsame, hin⟩ | ⟨c, k, hpc, hu, hgiven, hin⟩ |
    ⟨c, cookie, rest, params, rest', hpc, hread, hu, htests, hgiven, hin⟩
  · -- nothing is handed over
    refine ⟨controls, ?_, ?_, ?_, ?_, ?_, hold⟩ <;> rw [hsame]
    · exact hi.length
    · rw [hin]
      exact hi.latest
    · exact hi.ascending
    · intro c hc
      obtain ⟨hlt, hne⟩ := hi.known c hc
      exact ⟨hlt.trans_le (conn_step h).1, away_step h hlt hne⟩
    · exact fun c hc => answers_kept h (hi.welcomed c hc)
  · -- to the last test
    have hk : k + 1 = s.given.length := by
      apply hi.latest
      exact (hw.target k (by simp [hpc, AcceptPc.target])).1
    have hall := served_handed hi.length hk c
    rw [← hgiven] at hall
    obtain ⟨hasc, hknown, hwelcomed⟩ := hi.concat h hw ha (by simp [hpc, AcceptPc.invited]) hu hall
    have hlenu : u.given.length = s.given.length := by rw [hgiven, List.length_modify]
    refine ⟨controls, hlenu ▸ hi.length, fun j hj => ?_, hasc, hknown, hwelcomed, hold⟩
    rw [hlenu]
    exact hi.latest j (hin ▸ hj)
  · -- to a new test
    have hall := served_new hi.length c
    rw [← hgiven] at hall
    obtain ⟨hasc, hknown, hwelcomed⟩ := hi.concat h hw ha (by simp [hpc, AcceptPc.invited]) hu hall
    refine ⟨controls ++ [c], by simp [hgiven, hi.length], fun j hj => ?_, hasc, hknown, hwelcomed, ?_⟩
    · rw [hin, Option.some.injEq] at hj
      rw [hgiven, List.length_append, hlen, hj, List.length_singleton]
    · intro k d t hd ht
      rcases getElem?_concat_iff.1 hd with hd | ⟨hk, rfl⟩
      · exact hold k d t hd ht
      · rw [hi.length, hlen] at hk
        rw [htests, hk, List.getElem?_concat_length, Option.some.injEq] at ht
        obtain ⟨socket, hconn, hcookie⟩ := hp c cookie rest (.inr hpc)
        rw [← ht]
        exact ⟨socket, rest, params, rest', conns_kept h hconn, hcookie, hread, rfl⟩

theorem serves_reach (h : Reach (step decode) init s) : ∃ controls, Serves decode s controls := by
  obtain ⟨es, h⟩ := h
  induction h with
  | nil => exact ⟨[], by simp [init, given], by simp [init], by simp [served, init], by simp [served, init],
      by simp [served, init], by simp [init]⟩
  | snoc h _ hs ih =>
    obtain ⟨controls, hi⟩ := ih
    exact serves_step (step_cases hs) (wired_reach h.reach) (answering_reach h.reach) (presented_reach h.reach) hi

/--
The server serves in the order in which connections come in. In every reachable
state the accept loop has answered connections in that order, each at most once;
there is a control connection for each test, which carried the cookie and the
parameters that the test was made from, and the connections of all tests, the
control connection of each before its data connections, are in that order too,
each welcomed and none of them ever denied.
-/
theorem served_in_order (h : Reach (step decode) init s) :
    (s.answers.map Prod.fst).Pairwise (· < ·) ∧
    ∃ controls : List Nat, controls.length = s.tests.length ∧ (served controls s.given).Pairwise (· < ·) ∧
      (∀ c ∈ served controls s.given, c < s.conns.length ∧ (c, .serverMessage .welcome) ∈ s.answers ∧
        (c, accessDenied) ∉ s.answers) ∧
      ∀ (k c : Nat) (t : ServerTest), controls[k]? = some c → s.tests[k]? = some t → Requested decode s.conns c t := by
  have ha := answering_reach h
  obtain ⟨controls, hi⟩ := serves_reach h
  have hlen : controls.length = s.tests.length := hi.length.trans (List.length_map ..)
  refine ⟨ha.ascending, controls, hlen, hi.ascending, fun c hc => ?_, hi.requested⟩
  have hwelcomed := hi.welcomed c hc
  refine ⟨(hi.known c hc).1, hwelcomed, fun hdenied => ?_⟩
  have hsame := ha.unique hwelcomed hdenied
  simp [accessDenied] at hsame

/-- The client cannot be told that its stream has come, so its test ends, and
the next client is served. -/
theorem served_in_order_two : ∃ s, Reach (step startDecode) init s ∧ s.given = [[1], []] ∧
    ∃ controls : List Nat, controls.length = 2 ∧ (served controls [[1], []]).Pairwise (· < ·) ∧
      ∀ c ∈ served controls [[1], []], c < 3 ∧ (c, .serverMessage .welcome) ∈ s.answers := by
  obtain ⟨s, hr, hs⟩ := exists_of_exec (step startDecode) init
    (startRun ++ [.accept (peer [.clientMessage (.hello "c")] false), .lock, .read, .write true, .send, .test 0 .recv,
      .test 0 (.write false), .accept (peer startEnvelopes false), .read, .write true, .read])
    (fun s => s.given = [[1], []] ∧ s.conns.length = 3) (by decide +kernel)
  obtain ⟨hgiven, hconns⟩ := of_decide_eq_true hs
  obtain ⟨-, controls, hlen, hasc, hall, -⟩ := served_in_order hr
  rw [hgiven] at hasc hall
  have htests : s.tests.length = 2 := by
    rw [← List.length_map ServerTest.connections, show s.tests.map ServerTest.connections = [[1], []] from hgiven]
    rfl
  exact ⟨s, hr, hgiven, controls, hlen.trans htests, hasc, fun c hc => ⟨hconns ▸ (hall c hc).1, (hall c hc).2.1⟩⟩

end Server

end Netperf
