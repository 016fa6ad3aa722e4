import Netperf.P3.Negotiation
/-!
# Places and ids of the data connections

The server takes as many connections as there are streams before it looks at a
cookie, and both ends number their results by what is left after the connections
that were dropped. Both are right when nothing foreign or broken comes first.
-/

namespace Netperf.P3

open Frames

def DataSocket.presents (cookie : Cookie) (sock : DataSocket) : Bool := decide (Presents cookie sock.inbound.bytes)

theorem DataSocket.presents_iff {cookie : Cookie} {sock : DataSocket} :
    sock.presents cookie = true ↔ Presents cookie sock.inbound.bytes := decide_eq_true_iff

/-! ## Places -/

/-- The connections of the client of this test. -/
def honest (p : Params) (conns : List DataSocket) : List DataSocket :=
  conns.filter (DataSocket.presents (toLeBytes p.cookie))

/-- Every connection of the client is accepted, no other takes a place, and the
streams are those of a run without the others. -/
def Undisplaced (p : Params) (conns : List DataSocket) : Prop :=
  ∃ datas, acceptDatas p.parallel.toNat conns = some datas ∧ honest p datas = honest p conns ∧
    (∀ c ∈ datas, c.presents (toLeBytes p.cookie)) ∧ serverStreams p conns = serverStreams p (honest p conns)

/-- The client's connections keep their places exactly when none of them arrives
after a foreign one. -/
theorem undisplaced_iff (p : Params) (conns : List DataSocket) (h : (honest p conns).length = p.parallel.toNat) :
    Undisplaced p conns ↔
      conns.Pairwise (fun c d => d.presents (toLeBytes p.cookie) → c.presents (toLeBytes p.cookie)) := by
  have hle : p.parallel.toNat ≤ conns.length := by
    rw [← h]
    exact List.length_filter_le _ _
  rw [← Lists.take_eq_filter_iff h]
  constructor
  · rintro ⟨datas, hdatas, hhonest, hall, -⟩
    rw [acceptDatas_eq hle, Option.some.injEq] at hdatas
    have hself : honest p datas = datas := List.filter_eq_self.2 hall
    rw [hdatas, ← hself, hhonest]
    rfl
  · intro htake
    have haccept : acceptDatas p.parallel.toNat conns = some (honest p conns) := by
      rw [acceptDatas_eq hle, htake]
      rfl
    have halone : acceptDatas p.parallel.toNat (honest p conns) = some (honest p conns) := by
      rw [acceptDatas_eq (Nat.le_of_eq h.symm), ← h, List.take_length]
    refine ⟨honest p conns, haccept, ?_, fun c hc => (List.mem_filter.1 hc).2, ?_⟩
    · unfold honest
      rw [List.filter_filter]
      simp
    · unfold serverStreams
      rw [haccept, halone]

/-- A connection that writes these bytes and ends. -/
def sampleSocket (bytes : List UInt8) : DataSocket :=
  ⟨sourceOf bytes true, ⟨[⟨0, 0, 5⟩, ⟨5000000000, 0, 0⟩], 5000000000⟩, 5000000000⟩

def sampleParams : Params := ⟨dirForward, 5, 4, 1, fromLeBytes sampleCookie, false⟩

theorem undisplaced_late : Undisplaced sampleParams [sampleSocket sampleCookie.1, sampleSocket [9]] :=
  (undisplaced_iff sampleParams [sampleSocket sampleCookie.1, sampleSocket [9]] (by decide +kernel)).2 (by decide +kernel)

/-- A connection that says nothing takes the place of the client's. -/
theorem displaced_early :
    (honest sampleParams [sampleSocket [], sampleSocket sampleCookie.1]).length = sampleParams.parallel.toNat ∧
      ¬ Undisplaced sampleParams [sampleSocket [], sampleSocket sampleCookie.1] := by
  refine ⟨by decide +kernel, ?_⟩
  rintro ⟨datas, hdatas, hhonest, -⟩
  have hfirst : acceptDatas sampleParams.parallel.toNat [sampleSocket [], sampleSocket sampleCookie.1] =
      some [sampleSocket []] := rfl
  rw [hfirst, Option.some.injEq] at hdatas
  have hlen := congrArg List.length hhonest
  rw [← hdatas] at hlen
  exact absurd hlen (by decide +kernel)

/-! ## Ids -/

section
variable {pl : Plan} {sock : DataSocket} {l : List StreamStats}

theorem Plan.conn_client (hway : pl.receiving = !pl.sending) (h : pl.conn false sock = some l) :
    ∃ x, l = [x] ∧ x.sender = pl.sending := by
  simp only [Plan.conn, Plan.clientConn, clientConn, hway, Bool.false_eq_true, if_false] at h
  cases hsend : pl.sending with
  | true =>
    simp only [hsend, Bool.not_true] at h
    obtain ⟨x, hx, rfl⟩ := Option.map_eq_some_iff.1 h
    exact ⟨x, rfl, writeData_sender hx⟩
  | false =>
    simp only [hsend, Bool.not_false] at h
    obtain ⟨x, hx, rfl⟩ := Option.map_eq_some_iff.1 h
    exact ⟨x, rfl, readData_sender hx⟩

theorem Plan.conn_server (hway : pl.receiving = !pl.sending) (h : pl.conn true sock = some l) :
    (sock.presents pl.cookie = true ∧ ∃ x, l = [x] ∧ x.sender = pl.sending) ∨ (sock.presents pl.cookie = false ∧ l = []) := by
  simp only [Plan.conn, if_true] at h
  obtain ⟨v, hv, hl⟩ := Option.bind_eq_some_iff.1 h
  by_cases hp : Presents pl.cookie sock.inbound.bytes
  · refine .inl ⟨DataSocket.presents_iff.2 hp, ?_⟩
    obtain ⟨r, s, rfl, hr, hs⟩ := serverConn_transfers hv hp
    rw [hway] at hl
    cases hsend : pl.sending with
    | true =>
      simp only [hsend, Bool.not_true, transfer, Option.map_eq_some_iff] at hl
      obtain ⟨x, hx, rfl⟩ := hl
      exact ⟨x, rfl, hs x hx⟩
    | false =>
      simp only [hsend, Bool.not_false, transfer, Option.map_eq_some_iff] at hl
      obtain ⟨x, hx, rfl⟩ := hl
      exact ⟨x, rfl, hr x hx⟩
  · refine .inr ⟨decide_eq_false hp, ?_⟩
    rw [serverConn_drops hv hp] at hl
    exact (Option.some.inj hl).symm

end

/-- The connection an id stands for, where `outs` has what each one returned. -/
def origin (outs : List (List StreamStats)) (id : Nat) : Option Nat := (Lists.sourcesFrom 0 outs)[id]?

/-- What the ends return for their connections lines up: an id that both results
have stands for one connection, which one end sends on and the other receives. -/
def Paired (couts souts : List (List StreamStats)) : Prop :=
  ∀ id x y, (toResults couts.flatten).streams.lookup id = some x →
    (toResults souts.flatten).streams.lookup id = some y → origin couts id = origin souts id ∧ x.sender ≠ y.sender

/-- With a sender at one end and a receiver at the other, and something from each
connection at the first end, it is the places that decide. -/
theorem paired_iff (sending : Bool) {couts souts : List (List StreamStats)}
    (hc : ∀ l ∈ couts, ∃ x, l = [x] ∧ x.sender = sending)
    (hs : ∀ l ∈ souts, l.length ≤ 1 ∧ ∀ y ∈ l, y.sender = !sending) (hlen : souts.length = couts.length) :
    Paired couts souts ↔ souts.Pairwise (fun l m => m ≠ [] → l ≠ []) := by
  have hone : ∀ l ∈ couts, l.length = 1 := by
    intro l hl
    obtain ⟨x, rfl, -⟩ := hc l hl
    rfl
  have hclient : ∀ i k, (Lists.sourcesFrom 0 couts)[i]? = some k → k = 0 + i := by
    apply (Lists.sourcesFrom_aligned_iff (fun l hl => Nat.le_of_eq (hone l hl))).2
    refine List.pairwise_of_forall_mem_list (fun l hl m _ _ hnil => ?_)
    have hlen := hone l hl
    rw [hnil] at hlen
    cases hlen
  rw [← Lists.sourcesFrom_aligned_iff (b := 0) (fun l hl => (hs l hl).1)]
  constructor
  · intro hpaired i k hk
    have hi : i < souts.flatten.length := by
      rw [← Lists.sourcesFrom_length (b := 0)]
      exact Lists.lt_of_getElem? hk
    have hle := Lists.length_flatten_le (fun l hl => (hs l hl).1)
    have heq := Lists.length_flatten_eq hone
    obtain ⟨horigin, -⟩ := hpaired i _ _ (by rw [toResults_lookup]; exact List.getElem?_eq_getElem (by omega))
      (by rw [toResults_lookup]; exact List.getElem?_eq_getElem hi)
    apply hclient i k
    rw [← hk]
    exact horigin
  · intro hserver id x y hx hy
    rw [toResults_lookup] at hx hy
    obtain ⟨k, l, hk, hl, hxl⟩ := Lists.sourcesFrom_spec (b := 0) hx
    obtain ⟨k', l', hk', hl', hyl⟩ := Lists.sourcesFrom_spec (b := 0) hy
    constructor
    · unfold origin
      rw [hk, hk', hclient id _ hk, hserver id _ hk']
    · obtain ⟨x', rfl, hsend⟩ := hc l (List.mem_of_getElem? hl)
      obtain rfl := List.mem_singleton.1 hxl
      rw [hsend, (hs l' (List.mem_of_getElem? hl')).2 y hyl]
      cases sending <;> simp

/-- In a one-way test both ends number their results alike exactly when no
connection that passes the check comes after one that the server drops. -/
theorem ids_paired_iff (o : Opts) (cb : Cookie) (hway : o.bidir = false) (conns : List (DataSocket × DataSocket))
    (couts souts : List (List StreamStats))
    (hc : joinAll (conns.map Prod.fst) false (clientPlan o cb) = some couts)
    (hs : joinAll (conns.map Prod.snd) true (serverPlan (o.params cb)) = some souts) :
    Paired couts souts ↔ conns.Pairwise (fun c d => d.2.presents cb → c.2.presents cb) := by
  have hclient := @clientPlan_oneWay o cb hway
  have hserver : (serverPlan (o.params cb)).receiving = !(serverPlan (o.params cb)).sending := by
    rw [serverPlan_params]
    simp [Plan.mirror, hclient]
  have hcookie : (serverPlan (o.params cb)).cookie = cb := by rw [serverPlan_params]; rfl
  have hsending : (serverPlan (o.params cb)).sending = !(clientPlan o cb).sending := by
    rw [serverPlan_params, ← hclient]
    rfl
  have hcouts := Lists.forall₂_of_mapM hc
  have hsouts := Lists.forall₂_of_mapM hs
  have hpaired : Paired couts souts ↔ souts.Pairwise (fun l m => m ≠ [] → l ≠ []) := by
    refine paired_iff (clientPlan o cb).sending (fun l hl => ?_) (fun l hl => ?_) ?_
    · obtain ⟨_, -, hl⟩ := Lists.exists_of_forall₂ hcouts hl
      exact Plan.conn_client hclient hl
    · obtain ⟨_, -, hl⟩ := Lists.exists_of_forall₂ hsouts hl
      rcases Plan.conn_server hserver hl with ⟨-, x, rfl, hx⟩ | ⟨-, rfl⟩
      · simp [hx, hsending]
      · simp
    · rw [← hcouts.length_eq, ← hsouts.length_eq, List.length_map, List.length_map]
  rw [hpaired]
  -- the server's end returns something exactly when the check passes
  refine (Lists.pairwise_iff_of_forall₂ (p := fun c => c.2.presents cb = true) (q := fun l => l ≠ [])
    ((List.forall₂_map_left_iff.1 hsouts).imp (fun c l hl => ?_))).symm
  rcases Plan.conn_server hserver hl with ⟨hp, x, rfl, -⟩ | ⟨hp, rfl⟩
  · rw [hcookie] at hp
    simp [hp]
  · rw [hcookie] at hp
    simp [hp]

/-- Two uploads of one block each. -/
def sampleUpload : Opts := ⟨5, 4, 2, false, false, false⟩

def sentStats : StreamStats := ⟨true, 5000, 4, 0, none⟩

def passing : DataSocket × DataSocket := (sampleSocket [], sampleSocket (sampleCookie.1 ++ [0, 0, 0, 0]))

/-- The connection broke before the cookie was there. -/
def broken : DataSocket × DataSocket := (sampleSocket [], sampleSocket [1, 2, 3])

theorem ids_paired_last : Paired [[sentStats], [sentStats]] [[readStats 5000000000 4], []] :=
  (ids_paired_iff sampleUpload sampleCookie rfl [passing, broken] [[sentStats], [sentStats]]
    [[readStats 5000000000 4], []] (by decide +kernel) (by decide +kernel)).2 (by decide +kernel)

/-- With the first of two connections broken, id 0 is the first connection for
the client and the second for the server. -/
theorem ids_crossed :
    joinAll ([broken, passing].map Prod.fst) false (clientPlan sampleUpload sampleCookie) =
        some [[sentStats], [sentStats]] ∧
      joinAll ([broken, passing].map Prod.snd) true (serverPlan (sampleUpload.params sampleCookie)) =
        some [[], [readStats 5000000000 4]] ∧
      ¬ Paired [[sentStats], [sentStats]] [[], [readStats 5000000000 4]] := by
  refine ⟨by decide +kernel, by decide +kernel, fun hpaired => ?_⟩
  obtain ⟨horigin, -⟩ := hpaired 0 sentStats (readStats 5000000000 4) (by rw [toResults_lookup]; rfl)
    (by rw [toResults_lookup]; rfl)
  exact absurd horigin (by decide)

end Netperf.P3
