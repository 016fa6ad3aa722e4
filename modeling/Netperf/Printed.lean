import Netperf.Reported
import Netperf.Ui
/-!
# What both ends print

The summaries at the end of a session: from the streams that the two ends ran,
over the exchange of their results, to the lines of `print_summary`.
-/

namespace Netperf

open Maps Frames Runs Lists

/-! ## The lines of a stream -/

/-- How many lines tell of stream `id` at the end that sends, or at the end that receives. -/
def rowsOf (lines : List StatsLine) (id : Nat) (sender : Bool) : Nat :=
  lines.countP (fun line => line.id = some id ∧ line.sender = sender)

/-- A summary has a line for each of the `n` streams and either role that
`wanted` asks for, and no other; its SUM lines tell the totals of `es`. -/
structure Accounts (n : Nat) (wanted : Nat → Bool → Bool) (es : Multiset (Entry StreamStats))
    (lines : List StatsLine) : Prop where
  rows : ∀ id sender, rowsOf lines id sender = if id < n ∧ wanted id sender = true then 1 else 0
  sums : sumLines lines = if 1 < n then (Totals.of es).lines else []

section
variable {localResults remoteResults : TestResults} {direction : Direction} {order : List (Entry StreamStats)}

/-- The lines with an id are those of the entries that count. -/
theorem rowsOf_printSummary (ho : Enumerates localResults.streams order) (id : Nat) (sender : Bool) :
    rowsOf (printSummary localResults remoteResults direction order) id sender =
      (counted localResults remoteResults direction).countP (fun e => e.1 = id ∧ e.2.sender = sender) := by
  have hprinted : rowsOf (summarize order remoteResults direction).printed id sender =
      (counted localResults remoteResults direction).countP (fun e => e.1 = id ∧ e.2.sender = sender) := by
    rw [← coe_printedStreams ho, Multiset.coe_countP, rowsOf, summarize_printed, List.countP_map]
    apply List.countP_congr
    intro e _
    simp [Summary.streamLine, printStats]
  unfold printSummary
  dsimp only
  split
  · rw [← hprinted]
    simp [rowsOf, Totals.lines, printStats]
  · exact hprinted

end

namespace Session

variable {decode : List UInt8 → Option ClientEnvelope} {s : Session} {cookie : String} {params : TestParameters}
  {t : ServerTest} {r r' : TestResults} {sends : Nat → Bool} {direction : Direction} {order : List (Entry StreamStats)}

/-- How many streams the test has. -/
def streamsOf (params : TestParameters) : Nat := (PerfTest.new "" .client params).totalNeededStreams

/-! ## The rows -/

theorem Reports.row (h : Reports params sends r) (id : Nat) :
    (r.streams.lookup id).map StreamStats.sender = if id < streamsOf params then some (sends id) else none := h id

theorem Reports.mem_iff (h : Reports params sends r) (id : Nat) : id ∈ r.streams ↔ id < streamsOf params := by
  have hid := h.row id
  rw [Finmap.mem_iff]
  constructor
  · rintro ⟨a, ha⟩
    by_contra hge
    rw [ha, Option.map_some, if_neg hge] at hid
    cases hid
  · intro hlt
    rw [if_pos hlt] at hid
    obtain ⟨a, ha, -⟩ := Option.map_eq_some_iff.1 hid
    exact ⟨a, ha⟩

theorem Reports.keys_eq (h : Reports params sends r) : r.streams.keys = Finset.range (streamsOf params) := by
  ext id
  rw [Finmap.mem_keys, h.mem_iff, Finset.mem_range]

theorem Reports.len_eq (h : Reports params sends r) : len r.streams = streamsOf params := by
  unfold len
  rw [h.keys_eq, Finset.card_range]

/-- The entries of a stream in one role. -/
theorem Reports.countP (h : Reports params sends r) (id : Nat) (sender : Bool) :
    r.streams.entries.countP (fun e => e.1 = id ∧ e.2.sender = sender) =
      if id < streamsOf params ∧ sends id = sender then 1 else 0 := by
  rw [countP_entries r.streams id (fun a => a.sender = sender)]
  have hid := h.row id
  congr 1
  rw [eq_iff_iff]
  constructor
  · rintro ⟨a, ha, hs⟩
    have hlt := (h.mem_iff id).1 (Finmap.mem_of_lookup_eq_some ha)
    rw [ha, if_pos hlt, Option.map_some, Option.some.injEq] at hid
    exact ⟨hlt, hid.symm.trans hs⟩
  · rintro ⟨hlt, hs⟩
    rw [if_pos hlt] at hid
    obtain ⟨a, ha, hsender⟩ := Option.map_eq_some_iff.1 hid
    exact ⟨a, ha, hsender.trans hs⟩

/-! ## The summaries -/

/-- In one direction each stream has the lines of both its ends. -/
theorem Reports.accounts_oneWay (h : Reports params sends r) (h' : Reports params (fun id => !sends id) r')
    (hd : direction ≠ .bidirectional) (ho : Enumerates r.streams order) :
    Accounts (streamsOf params) (fun _ _ => true) (r.streams.entries + r'.streams.entries)
      (printSummary r r' direction order) := by
  have hcounted := counted_of_keys hd (h.keys_eq.trans h'.keys_eq.symm)
  refine ⟨fun id sender => ?_, ?_⟩
  · rw [rowsOf_printSummary ho, hcounted, Multiset.countP_add, h.countP, h'.countP]
    by_cases hid : id < streamsOf params
    · cases sends id <;> cases sender <;> simp [hid]
    · simp [hid]
  · rw [sumLines_printSummary, h.len_eq, summarize_counted ho, hcounted]

/-- In both directions an end prints its own entries only. -/
theorem Reports.accounts_bidir (h : Reports params sends r) (ho : Enumerates r.streams order) :
    Accounts (streamsOf params) (fun id sender => sends id == sender) r.streams.entries
      (printSummary r r' .bidirectional order) := by
  have hcounted : counted r r' .bidirectional = r.streams.entries := add_zero _
  refine ⟨fun id sender => ?_, ?_⟩
  · rw [rowsOf_printSummary ho, hcounted, h.countP]
    simp only [beq_iff_eq]
  · rw [sumLines_printSummary, h.len_eq, summarize_counted ho, hcounted]

/-- Where both ends of a session have printed, whose tasks did not fail, end
before the load or get given up, in whatever order they went through their
results: in a test of one direction both summaries have each stream once as the
sender's and once as the receiver's, and the same SUM lines, of all the entries
of both ends; in a test of both directions each has its own entries and their
totals. -/
theorem summaries_agree {k : Nat} {w : Server} {es : List SessionEvent} (hw : Created decode cookie params k w)
    (h : Run (step decode) (fun s e => Honest decode cookie s e ∧ Unbroken s e) (new w k cookie params) es s)
    (ht : s.server.tests[k]? = some t) {localS remoteS localC remoteC : TestResults}
    (hs : t.pc = .returned (some (localS, remoteS))) (hc : s.client.pc = .returned (some (localC, remoteC)))
    {orderS orderC : List (Entry StreamStats)} (hoS : Enumerates localS.streams orderS)
    (hoC : Enumerates localC.streams orderC) :
    (params.direction ≠ .bidirectional →
      Accounts (streamsOf params) (fun _ _ => true) (localC.streams.entries + localS.streams.entries)
          (printSummary localC remoteC params.direction orderC) ∧
        Accounts (streamsOf params) (fun _ _ => true) (localC.streams.entries + localS.streams.entries)
          (printSummary localS remoteS params.direction orderS)) ∧
      (params.direction = .bidirectional →
        Accounts (streamsOf params) (fun id sender => clientSends params id == sender) localC.streams.entries
            (printSummary localC remoteC params.direction orderC) ∧
          Accounts (streamsOf params) (fun id sender => (!clientSends params id) == sender) localS.streams.entries
            (printSummary localS remoteS params.direction orderS)) := by
  obtain ⟨rfl, t₀, hi, hr⟩ := rostered_run hw h
  obtain rfl : t = t₀ := Option.some.inj (ht.symm.trans hi.test)
  obtain ⟨rfl, rfl⟩ := (Pair.exchanging_reach hi.pair).crossed hs hc
  have hserver := hr.server_reports hi (r := remoteC) (by simp [ServerTest.collected, hs])
  have hclient := hr.client_reports hi (r := remoteS) (by simp [ClientTest.collected, hc])
  have hclient' : Reports params (fun id => !!clientSends params id) remoteS := by simpa using hclient
  refine ⟨fun hd => ⟨hclient.accounts_oneWay hserver hd hoC, ?_⟩, fun hd => ?_⟩
  · rw [add_comm]
    exact hserver.accounts_oneWay hclient' hd hoS
  · rw [hd]
    exact ⟨hclient.accounts_bidir hoC, hserver.accounts_bidir hoS⟩

/-- The test with one stream, uploaded. -/
theorem summaries_agree_one : ∃ w s t localS localC, Created Server.startDecode "c" (uploadParams 1) 0 w ∧
    Run (step Server.startDecode) (fun s e => Honest Server.startDecode "c" s e ∧ Unbroken s e)
      (new w 0 "c" (uploadParams 1)) reportedRun s ∧
    s.server.tests[0]? = some t ∧ t.pc = .returned (some (localS, localC)) ∧
    s.client.pc = .returned (some (localC, localS)) ∧
    Accounts 1 (fun _ _ => true) (localC.streams.entries + localS.streams.entries)
      (printSummary localC localS .clientToServer [⟨0, ⟨true, 10000, 131072, 1, none⟩⟩]) := by
  obtain ⟨w, s, hw, hrun, hp⟩ := exists_session Server.startDecode
    (fun s e => Honest Server.startDecode "c" s e ∧ Unbroken s e) (Server.peer Server.startEnvelopes false) "c"
    (uploadParams 1) reportedRun
    (fun s => s.client.pc = .returned (some (Pair.oneResult true, Pair.oneResult false)) ∧
      (s.server.tests[0]?).any (fun t => t.pc = .returned (some (Pair.oneResult false, Pair.oneResult true))))
    (by decide +kernel)
  simp only [Option.any_eq_true, decide_eq_true_eq] at hp
  obtain ⟨hc, t, ht, hs⟩ := hp
  have hoS : Enumerates (Pair.oneResult false).streams [⟨0, ⟨false, 10000, 131072, 1, none⟩⟩] := rfl
  have hoC : Enumerates (Pair.oneResult true).streams [⟨0, ⟨true, 10000, 131072, 1, none⟩⟩] := rfl
  obtain ⟨hoop, -⟩ := summaries_agree hw hrun ht hs hc hoS hoC
  exact ⟨w, s, t, _, _, hw, hrun, ht, hs, hc, (hoop (by decide)).1⟩

end Session

end Netperf
