import Netperf.Latency
import Netperf.P3.WholeTest
/-!
# The latency report of a p3 test

Only a write loop of this build measures, and it has no goodput windows. So the
report of a whole test has one line for each transfer, its sender's.
-/

namespace Netperf.P3

open Maps Frames

/-- What the stats of a stream say about the latency. -/
def Timed (measure : Bool) (s : StreamStats) : Prop :=
  if s.sender = true ∧ measure = true then ∃ d, s.latency = some ⟨d, .default, 0, 0⟩ else s.latency = none

section
variable {block secs ns total : Nat} {closed measure isServer : Bool} {out : Outbound} {cs : List Chunk}
  {s : StreamStats} {pl : Plan} {sock : DataSocket} {socks : List DataSocket} {l : List StreamStats}

theorem writeData_timed (h : writeData block secs measure out = some s) : Timed measure s := by
  obtain ⟨r, -, rfl⟩ := Option.map_eq_some_iff.1 h
  unfold Timed
  cases measure with
  | true => exact ⟨_, rfl⟩
  | false => rfl

theorem readData_timed (h : readData closed cs ns total = some s) : Timed measure s := by
  obtain ⟨n, -, rfl⟩ := Option.map_eq_some_iff.1 h
  rfl

theorem transfer_mem {recvData sendData : Bool} {r t : Option StreamStats}
    (h : (transfer recvData sendData r t).stats = some l) (hs : s ∈ l) : r = some s ∨ t = some s := by
  cases recvData <;> cases sendData
  · cases h
    cases hs
  · obtain ⟨x, hx, rfl⟩ := Option.map_eq_some_iff.1 h
    exact .inr (List.mem_singleton.1 hs ▸ hx)
  · obtain ⟨x, hx, rfl⟩ := Option.map_eq_some_iff.1 h
    exact .inl (List.mem_singleton.1 hs ▸ hx)
  · obtain ⟨y, hy, h⟩ := Option.bind_eq_some_iff.1 h
    obtain ⟨x, hx, rfl⟩ := Option.map_eq_some_iff.1 h
    rcases List.mem_pair.1 hs with rfl | rfl
    · exact .inr hy
    · exact .inl hx

theorem Plan.conn_timed (h : pl.conn isServer sock = some l) (hs : s ∈ l) : Timed pl.measure s := by
  cases isServer with
  | true =>
    obtain ⟨v, hv, hl⟩ := Option.bind_eq_some_iff.1 h
    obtain ⟨⟨acc, rest⟩, -, rfl⟩ := Option.map_eq_some_iff.1 hv
    dsimp only at hl
    split at hl
    · cases hl
      cases hs
    · rcases transfer_mem hl hs with hr | hw
      · exact readData_timed hr
      · exact writeData_timed hw
  | false =>
    simp only [Plan.conn, Plan.clientConn, P3.clientConn, Bool.false_eq_true, if_false] at h
    split at h
    · obtain ⟨x, hx, h⟩ := Option.bind_eq_some_iff.1 h
      obtain ⟨y, hy, rfl⟩ := Option.map_eq_some_iff.1 h
      rcases List.mem_pair.1 hs with rfl | rfl
      · exact writeData_timed hx
      · exact readData_timed hy
    · obtain ⟨x, hx, rfl⟩ := Option.map_eq_some_iff.1 h
      exact List.mem_singleton.1 hs ▸ writeData_timed hx
    · obtain ⟨x, hx, rfl⟩ := Option.map_eq_some_iff.1 h
      exact List.mem_singleton.1 hs ▸ readData_timed hx
    · cases h
      cases hs

theorem runStreams_timed (h : runStreams socks isServer pl = some l) : ∀ s ∈ l, Timed pl.measure s := by
  intro s hs
  obtain ⟨outs, houts, rfl⟩ := Option.map_eq_some_iff.1 h
  obtain ⟨out, hout, hs⟩ := List.mem_flatten.1 hs
  obtain ⟨sock, -, hsock⟩ := Lists.exists_of_forall₂ (Lists.forall₂_of_mapM houts) hout
  exact Plan.conn_timed hsock hs

end

/-! ## The lines -/

/-- The line of a write loop. -/
def stallLine (m : Measured) : LatencyLine :=
  let d := m.lat.intervalNs
  .interval ⟨m.id, "write-stall  (sender)  ", humanizeNs d.min, humanizeNs d.p50, humanizeNs d.p90, humanizeNs d.p99,
    humanizeNs d.p100, humanizeNs d.mean⟩

section
variable {o : Opts} {cb : Cookie} {conns : List (DataSocket × DataSocket)} {locals remote : TestResults}
  {ms : List Measured} {m m' : Measured} {s : StreamStats} {id : Nat}

/-- All the streams of a result are timed. -/
def AllTimed (measure : Bool) (r : TestResults) : Prop := ∀ id s, r.streams.lookup id = some s → Timed measure s

theorem allTimed_toResults {l : List StreamStats} {measure : Bool} (h : ∀ s ∈ l, Timed measure s) :
    AllTimed measure (toResults l) := by
  intro id s hs
  rw [toResults_lookup] at hs
  exact h s (List.mem_of_getElem? hs)

theorem Timed.of_sender (h : Timed true s) (hs : s.sender = true) : ∃ d, s.latency = some ⟨d, .default, 0, 0⟩ := by
  unfold Timed at h
  rwa [if_pos ⟨hs, rfl⟩] at h

/-- What has been measured is a sender's, without goodput windows. -/
theorem Timed.measured {measure : Bool} {lat : LatencyStats} (h : Timed measure s) (hlat : s.latency = some lat) :
    measure = true ∧ s.sender = true ∧ lat.throughputBps = .default := by
  unfold Timed at h
  split at h
  · rename_i hs
    obtain ⟨d, hd⟩ := h
    rw [hlat, Option.some.injEq] at hd
    exact ⟨hs.2, hs.1, by rw [hd]⟩
  · rw [hlat] at h
    cases h

theorem measured_timed {measure : Bool} (h : m.Of locals remote) (hl : AllTimed measure locals)
    (hr : AllTimed measure remote) : measure = true ∧ m.sender = true ∧ m.lat.throughputBps = .default := by
  obtain ⟨s, hs, hsender, hlat⟩ := h
  rw [← hsender]
  split at hs
  · exact (hr _ _ hs).measured hlat
  · exact (hl _ _ hs).measured hlat

theorem lines_of_sender (hs : m.sender = true) (ht : m.lat.throughputBps = .default) : m.lines = [stallLine m] := by
  unfold Measured.lines LatencyStats.lines
  rw [hs, ht]
  rfl

/-! ## One line for each transfer -/

theorem Opts.twin_twin (o : Opts) (id : Nat) : o.twin (o.twin id) = id := by
  unfold Opts.twin
  split
  · split
    · rw [if_neg (by omega), Nat.add_sub_cancel]
    · rw [if_pos (by omega)]
      omega
  · rfl

theorem Opts.twin_lt (h : id < o.rows) : o.twin id < o.rows := by
  unfold Opts.rows Opts.twin at *
  cases hb : o.bidir with
  | true =>
    simp only [hb, if_true] at h ⊢
    split <;> omega
  | false =>
    simp only [hb, Bool.false_eq_true, if_false] at h ⊢
    exact h

/-- What the client calls the transfer that is measured. -/
def Opts.transferOf (o : Opts) (m : Measured) : Nat := if m.atRemote then o.twin m.id else m.id

/-- The transfer that a measured stream is part of: the stream is its sender. -/
theorem Mirrored.sender_of (h : Mirrored o cb conns locals remote) (hl : AllTimed o.latency locals)
    (hr : AllTimed o.latency remote) (hm : m.Of locals remote) :
    o.transferOf m < o.rows ∧ m.atRemote = !o.sends (o.transferOf m) := by
  have hsender := (measured_timed hm hl hr).2.1
  obtain ⟨s, hs, hss, -⟩ := hm
  have hsend : s.sender = true := hss.trans hsender
  unfold Opts.transferOf
  cases hend : m.atRemote with
  | false =>
    simp only [hend, Bool.false_eq_true, if_false] at hs ⊢
    have hlt : m.id < o.rows := by
      by_contra hge
      rw [(h.only m.id (by omega)).1] at hs
      cases hs
    obtain ⟨p, x, y, -, hx, -, hxy⟩ := h.paired m.id hlt
    rw [hs, Option.some.injEq] at hx
    refine ⟨hlt, ?_⟩
    cases hsends : o.sends m.id with
    | true => rfl
    | false =>
      rw [hsends] at hxy
      have hrecv := hxy.receives
      rw [← hx, hsend] at hrecv
      cases hrecv
  | true =>
    simp only [hend, if_true] at hs ⊢
    have hlt : m.id < o.rows := by
      by_contra hge
      rw [(h.only m.id (by omega)).2] at hs
      cases hs
    obtain ⟨p, x, y, -, -, hy, hxy⟩ := h.paired (o.twin m.id) (o.twin_lt hlt)
    rw [o.twin_twin, hs, Option.some.injEq] at hy
    refine ⟨o.twin_lt hlt, ?_⟩
    cases hsends : o.sends (o.twin m.id) with
    | false => rfl
    | true =>
      rw [hsends] at hxy
      have hrecv := hxy.receives
      rw [← hy, hsend] at hrecv
      cases hrecv

/-- Of every transfer the sender is measured. -/
theorem Mirrored.exists_measured (h : Mirrored o cb conns locals remote) (ho : o.latency = true)
    (hl : AllTimed o.latency locals) (hr : AllTimed o.latency remote) (hid : id < o.rows) :
    ∃ m : Measured, m.Of locals remote ∧ o.transferOf m = id := by
  obtain ⟨p, x, y, -, hx, hy, hxy⟩ := h.paired id hid
  rw [ho] at hl hr
  cases hsends : o.sends id with
  | true =>
    rw [hsends] at hxy
    obtain ⟨d, hd⟩ := (hl _ _ hx).of_sender hxy.sends
    exact ⟨⟨id, false, x.sender, _⟩, ⟨x, hx, rfl, hd⟩, rfl⟩
  | false =>
    rw [hsends] at hxy
    obtain ⟨d, hd⟩ := (hr _ _ hy).of_sender hxy.sends
    exact ⟨⟨o.twin id, true, y.sender, _⟩, ⟨y, hy, rfl, hd⟩, o.twin_twin id⟩

theorem measured_inj (hm : m.Of locals remote) (hm' : m'.Of locals remote) (hid : m.id = m'.id)
    (hend : m.atRemote = m'.atRemote) : m = m' := by
  obtain ⟨s, hs, hsender, hlat⟩ := hm
  obtain ⟨s', hs', hsender', hlat'⟩ := hm'
  rw [hid, hend, hs', Option.some.injEq] at hs
  subst hs
  rw [hlat', Option.some.injEq] at hlat
  have hsame := hsender'.symm.trans hsender
  cases m
  cases m'
  simp only at hid hend hlat hsame
  subst hid hend hlat hsame
  rfl

/-- So there are as many measured streams as transfers. -/
theorem Mirrored.listing_length (h : Mirrored o cb conns locals remote) (ho : o.latency = true)
    (hl : AllTimed o.latency locals) (hr : AllTimed o.latency remote) (hms : Measured.Listing locals remote ms) :
    ms.length = o.rows := by
  have hnodup : (ms.map o.transferOf).Nodup := by
    apply List.Nodup.map_on _ hms.ordered.nodup
    intro m hm m' hm' he
    have hm := (hms.mem m).1 hm
    have hm' := (hms.mem m').1 hm'
    have hend : m.atRemote = m'.atRemote := by
      rw [(h.sender_of hl hr hm).2, (h.sender_of hl hr hm').2, he]
    apply measured_inj hm hm' _ hend
    unfold Opts.transferOf at he
    rw [hend] at he
    split at he
    · rw [← o.twin_twin m.id, he, o.twin_twin]
    · exact he
  have hperm : (ms.map o.transferOf).Perm (List.range o.rows) := by
    apply (List.perm_ext_iff_of_nodup hnodup List.nodup_range).2
    intro id
    rw [List.mem_map, List.mem_range]
    constructor
    · rintro ⟨m, hm, rfl⟩
      exact (h.sender_of hl hr ((hms.mem m).1 hm)).1
    · intro hid
      obtain ⟨m, hm, he⟩ := h.exists_measured ho hl hr hid
      exact ⟨m, (hms.mem m).2 hm, he⟩
  rw [← List.length_map (f := o.transferOf), hperm.length_eq, List.length_range]

theorem printed_stalls (hms : Measured.Listing locals remote ms) {measure : Bool} (hl : AllTimed measure locals)
    (hr : AllTimed measure remote) :
    printLatencySummary locals remote = if ms = [] then [] else .heading :: ms.map stallLine := by
  have hlines : ms.flatMap Measured.lines = ms.map stallLine := by
    rw [← List.flatMap_pure_eq_map]
    apply List.flatMap_congr
    intro m hm
    obtain ⟨-, hs, ht⟩ := measured_timed ((hms.mem m).1 hm) hl hr
    exact lines_of_sender hs ht
  rw [printLatencySummary_eq hms, hlines]

end

/-- What the client prints of the latency after a whole test that asks for it,
over connections whose write loops come to their end with no write cut short but
the last: a heading and one line for each transfer, its sender's, by ascending id
with the client's own line before the server's, and never a line of goodput
windows. A test that does not ask for the latency measures nothing. -/
theorem stalls_reported (encodeP : Params → List UInt8) (decodeP : List UInt8 → Option Params)
    (encodeR : TestResults → List UInt8) (decodeR : List UInt8 → Option TestResults) (o : Opts) (cb : Cookie)
    (conns : List (DataSocket × DataSocket)) (later : List DataSocket) (ctrl : Source)
    (hlen : conns.length = o.parallel.toNat) (hlinks : ∀ p ∈ conns, (clientPlan o cb).Links p.1 p.2)
    (hp : decodeP (encodeP (o.params cb)) = some (o.params cb)) (hplen : (encodeP (o.params cb)).length < 2 ^ 32 - 4)
    (hctrl : framed (encodeP (o.params cb)) <+: ctrl.bytes) :
    ∃ locals remote, serverRun decodeP ctrl (conns.map Prod.snd ++ later) = some remote ∧
      (∀ back : Source, decodeR (encodeR remote) = some remote → (encodeR remote).length < 2 ^ 32 - 4 →
        framed (encodeR remote) <+: back.bytes →
        clientRun decodeR o cb back (conns.map Prod.fst) = some (locals, remote, directionOf o.dir)) ∧
      (o.latency = true → ∃ ms, Measured.Listing locals remote ms ∧ ms.length = o.rows ∧
        printLatencySummary locals remote = if o.rows = 0 then [] else .heading :: ms.map stallLine) ∧
      (o.latency = false → printLatencySummary locals remote = []) := by
  obtain ⟨ls, ms, hl, hs, hmirrored, hserver, hclient⟩ := ends_return hlen hlinks hp hplen hctrl
  have hlocal : AllTimed o.latency (toResults ls) := allTimed_toResults (runStreams_timed hl)
  have hremote : AllTimed o.latency (toResults ms) := allTimed_toResults (runStreams_timed hs)
  have hlisting := listing_measuredList (toResults ls) (toResults ms)
  have hprinted := printed_stalls hlisting hlocal hremote
  refine ⟨_, _, hserver, hclient, fun ho => ?_, fun ho => ?_⟩
  · have hlength := hmirrored.listing_length ho hlocal hremote hlisting
    refine ⟨_, hlisting, hlength, ?_⟩
    rw [hprinted, ← hlength]
    simp only [List.length_eq_zero_iff]
  · rw [hprinted, if_pos]
    apply List.eq_nil_iff_forall_not_mem.2
    intro m hm
    have hmeasured := (measured_timed ((hlisting.mem m).1 hm) hlocal hremote).1
    rw [ho] at hmeasured
    cases hmeasured

/-- Both ends send one block of four bytes. -/
theorem stalls_reported_both :
    ∃ locals remote ms, Measured.Listing locals remote ms ∧ ms.length = 2 ∧
      printLatencySummary locals remote = .heading :: ms.map stallLine := by
  have hcompletes : (clientPlan { sampleBoth with latency := true } sampleCookie).Completes
      ⟨[⟨0, 0, 5⟩, ⟨5000000000, 0, 0⟩], 5000000000⟩ := ⟨by decide +kernel, offered_whole_iff.1 (by decide +kernel)⟩
  have hlinks : (clientPlan { sampleBoth with latency := true } sampleCookie).Links sampleEnds.1 sampleEnds.2 :=
    ⟨⟨[0, 0, 0, 0], by decide +kernel, fun _ => ⟨by decide +kernel, rfl, hcompletes⟩⟩,
      fun _ => ⟨by decide +kernel, rfl, hcompletes⟩⟩
  obtain ⟨locals, remote, -, -, hreport, -⟩ :=
    stalls_reported (fun p => utf8 p.json)
      (decodeAmong (fun p => utf8 p.json) [({ sampleBoth with latency := true } : Opts).params sampleCookie])
      (fun r => utf8 r.json) (fun _ => none) { sampleBoth with latency := true } sampleCookie [sampleEnds] []
      (byteByByte (framed (utf8 (({ sampleBoth with latency := true } : Opts).params sampleCookie).json))) rfl
      (fun p hp => by rw [List.mem_singleton.1 hp]; exact hlinks) (by decide +kernel) (by decide +kernel)
      (by rw [byteByByte_bytes])
  obtain ⟨ms, hms, hlen, hprint⟩ := hreport rfl
  exact ⟨locals, remote, ms, hms, hlen, hprint⟩

end Netperf.P3
