import Mathlib.Data.Multiset.Lattice
import Mathlib.Order.Lattice.Nat
import Netperf.Lib.Lists
import Netperf.Stats
/-!
# The summary of a test

`print_summary` of `netperf-core`'s `ui.rs`, up to the formatting of its
numbers. The additions are those of a release build: a `u64` wraps.
-/

namespace Netperf

open Maps

/-! ## What is printed (`ui.rs`) -/

/-- A line of `print_stats`. -/
structure StatsLine where
  /-- Of a stream, or `SUM`. -/
  id : Option Nat
  offsetFromStartMillis : Nat
  endPoint : Nat
  durationMillis : Nat
  bytesTransferred : Nat
  sender : Bool
deriving DecidableEq

def printStats (id : Option Nat) (offsetFromStartMillis durationMillis bytesTransferred : Nat) (sender : Bool) : StatsLine :=
  { id, offsetFromStartMillis, endPoint := (offsetFromStartMillis + durationMillis) % u64Size, durationMillis,
    bytesTransferred, sender }

/-- The accumulators of `print_summary`. -/
structure Totals where
  senderDurationMillis : Nat
  receiverDurationMillis : Nat
  senderBytesTransferred : Nat
  receiverBytesTransferred : Nat
deriving DecidableEq

def Totals.zero : Totals := ⟨0, 0, 0, 0⟩

def Totals.add (t : Totals) (stats : StreamStats) : Totals :=
  if stats.sender then
    { t with
      senderBytesTransferred := (t.senderBytesTransferred + stats.bytesTransferred) % u64Size
      senderDurationMillis := max t.senderDurationMillis stats.durationMillis }
  else
    { t with
      receiverBytesTransferred := (t.receiverBytesTransferred + stats.bytesTransferred) % u64Size
      receiverDurationMillis := max t.receiverDurationMillis stats.durationMillis }

/-- What the loop has printed and summed up so far. -/
structure Summary where
  printed : List StatsLine
  totals : Totals
deriving DecidableEq

namespace Summary

def stream (s : Summary) (e : Entry StreamStats) : Summary :=
  { printed := s.printed ++ [printStats (some e.1) 0 e.2.durationMillis e.2.bytesTransferred e.2.sender]
    totals := s.totals.add e.2 }

/-- The body of the loop. -/
def entry (remoteResults : TestResults) (direction : Direction) (s : Summary) (e : Entry StreamStats) : Summary :=
  let s := s.stream e
  if direction ≠ .bidirectional then
    match remoteResults.streams.lookup e.1 with
    | some remoteStats => s.stream ⟨e.1, remoteStats⟩
    | none => s
  else s

end Summary

/-- The loop. It goes through the local results in the `order` of the hash map. -/
def summarize (order : List (Entry StreamStats)) (remoteResults : TestResults) (direction : Direction) : Summary :=
  order.foldl (Summary.entry remoteResults direction) ⟨[], .zero⟩

def Totals.lines (t : Totals) : List StatsLine :=
  [printStats none 0 t.senderDurationMillis t.senderBytesTransferred true,
    printStats none 0 t.receiverDurationMillis t.receiverBytesTransferred false]

def printSummary (localResults remoteResults : TestResults) (direction : Direction) (order : List (Entry StreamStats)) :
    List StatsLine :=
  let s := summarize order remoteResults direction
  if len localResults.streams > 1 then s.printed ++ s.totals.lines else s.printed

/-! ## What the totals are -/

def bytesOf (sender : Bool) (es : Multiset (Entry StreamStats)) : Nat :=
  ((es.filter (fun e => e.2.sender = sender)).map (fun e => e.2.bytesTransferred)).sum

def durationOf (sender : Bool) (es : Multiset (Entry StreamStats)) : Nat :=
  ((es.filter (fun e => e.2.sender = sender)).map (fun e => e.2.durationMillis)).sup

/-- The totals of all the entries, whatever their order. -/
def Totals.of (es : Multiset (Entry StreamStats)) : Totals :=
  { senderDurationMillis := durationOf true es
    receiverDurationMillis := durationOf false es
    senderBytesTransferred := bytesOf true es % u64Size
    receiverBytesTransferred := bytesOf false es % u64Size }

theorem bytesOf_cons (sender : Bool) (e : Entry StreamStats) (es : Multiset (Entry StreamStats)) :
    bytesOf sender (e ::ₘ es) = (if e.2.sender = sender then e.2.bytesTransferred else 0) + bytesOf sender es := by
  unfold bytesOf
  rw [Multiset.filter_cons, Multiset.map_add, Multiset.sum_add]
  congr 1
  split <;> rfl

theorem durationOf_cons (sender : Bool) (e : Entry StreamStats) (es : Multiset (Entry StreamStats)) :
    durationOf sender (e ::ₘ es) = max (if e.2.sender = sender then e.2.durationMillis else 0) (durationOf sender es) := by
  unfold durationOf
  rw [Multiset.filter_cons, Multiset.map_add, Multiset.sup_add]
  congr 1
  split
  · exact Multiset.sup_singleton
  · rfl

/-- One more entry counts once, for its role. -/
theorem Totals.of_cons (e : Entry StreamStats) (es : Multiset (Entry StreamStats)) :
    Totals.of (e ::ₘ es) = (Totals.of es).add e.2 := by
  unfold Totals.of Totals.add
  simp only [bytesOf_cons, durationOf_cons]
  cases e.2.sender <;> simp [Nat.add_comm, max_comm]

theorem Totals.foldl_add (es : Multiset (Entry StreamStats)) (l : List (Entry StreamStats)) :
    l.foldl (fun t e => t.add e.2) (Totals.of es) = Totals.of (es + l) := by
  induction l generalizing es with
  | nil => simp
  | cons e l ih =>
    rw [List.foldl_cons, ← Totals.of_cons, ih, ← Multiset.cons_coe, Multiset.cons_add, Multiset.add_cons]

namespace Summary

variable {remoteResults : TestResults} {direction : Direction}

/-- The entry of the other end, under the key of this one. -/
def other (remoteResults : TestResults) (e : Entry StreamStats) : Option (Entry StreamStats) :=
  (remoteResults.streams.lookup e.1).map (Sigma.mk e.1)

/-- The line of one entry. -/
def streamLine (e : Entry StreamStats) : StatsLine :=
  printStats (some e.1) 0 e.2.durationMillis e.2.bytesTransferred e.2.sender

theorem foldl_stream (l : List (Entry StreamStats)) (s : Summary) :
    (l.foldl stream s).totals = l.foldl (fun t e => t.add e.2) s.totals ∧
      (l.foldl stream s).printed = s.printed ++ l.map streamLine := by
  induction l generalizing s with
  | nil => exact ⟨rfl, (List.append_nil _).symm⟩
  | cons e l ih =>
    obtain ⟨htotals, hprinted⟩ := ih (s.stream e)
    refine ⟨htotals, ?_⟩
    rw [List.foldl_cons, hprinted, List.map_cons]
    exact List.append_assoc s.printed [streamLine e] (l.map streamLine)

/-- What the loop prints after an entry of this end. -/
def counterpart (remoteResults : TestResults) (direction : Direction) (e : Entry StreamStats) :
    Option (Entry StreamStats) :=
  if direction ≠ .bidirectional then other remoteResults e else none

theorem entry_eq (s : Summary) (e : Entry StreamStats) :
    s.entry remoteResults direction e = (e :: (counterpart remoteResults direction e).toList).foldl stream s := by
  unfold entry counterpart other
  split
  · cases remoteResults.streams.lookup e.1 <;> rfl
  · rfl

end Summary

/-- The entries in the order they are printed in. -/
def printedStreams (order : List (Entry StreamStats)) (remoteResults : TestResults) (direction : Direction) :
    List (Entry StreamStats) :=
  order.flatMap (fun e => e :: (Summary.counterpart remoteResults direction e).toList)

/-- All the entries of this end, and those of the other end that have a key of this one. -/
def counted (localResults remoteResults : TestResults) (direction : Direction) : Multiset (Entry StreamStats) :=
  localResults.streams.entries +
    if direction ≠ .bidirectional then remoteResults.streams.entries.filter (fun e => e.1 ∈ localResults.streams) else 0

section
variable {localResults remoteResults : TestResults} {direction : Direction} {order order' : List (Entry StreamStats)}

theorem summarize_eq (order : List (Entry StreamStats)) :
    summarize order remoteResults direction =
      (printedStreams order remoteResults direction).foldl Summary.stream ⟨[], .zero⟩ := by
  unfold summarize printedStreams
  rw [List.foldl_flatMap]
  congr 1
  funext s e
  exact Summary.entry_eq s e

/-- In any order the loop goes through each entry once. -/
theorem coe_printedStreams (ho : Enumerates localResults.streams order) :
    (printedStreams order remoteResults direction : Multiset (Entry StreamStats)) =
      counted localResults remoteResults direction := by
  have hperm := Lists.flatMap_toList_perm (Summary.counterpart remoteResults direction) order
  have hcounterparts : ((order.filterMap (Summary.counterpart remoteResults direction) : List _) : Multiset _) =
      if direction ≠ .bidirectional then
        remoteResults.streams.entries.filter (fun e => e.1 ∈ localResults.streams) else 0 := by
    unfold Summary.counterpart
    split
    · exact ho.lookups_eq remoteResults.streams
    · rw [List.filterMap_none]
      rfl
  unfold printedStreams counted
  rw [Multiset.coe_eq_coe.2 hperm, ← Multiset.coe_add, ho, hcounterparts]

theorem summarize_counted (ho : Enumerates localResults.streams order) :
    (summarize order remoteResults direction).totals = Totals.of (counted localResults remoteResults direction) := by
  rw [summarize_eq, (Summary.foldl_stream _ _).1]
  calc _ = Totals.of (0 + _) := Totals.foldl_add 0 _
    _ = _ := by
      rw [zero_add, coe_printedStreams ho]

/-- The loop prints a line for each entry. -/
theorem summarize_printed (order : List (Entry StreamStats)) :
    (summarize order remoteResults direction).printed =
      (printedStreams order remoteResults direction).map Summary.streamLine := by
  rw [summarize_eq, (Summary.foldl_stream _ _).2]
  rfl

theorem counted_of_keys (hd : direction ≠ .bidirectional)
    (hk : localResults.streams.keys = remoteResults.streams.keys) :
    counted localResults remoteResults direction = localResults.streams.entries + remoteResults.streams.entries := by
  unfold counted
  rw [if_pos hd, Multiset.filter_eq_self.2]
  intro e he
  rw [← Finmap.mem_keys, hk, Finmap.mem_keys]
  exact Finmap.mem_of_lookup_eq_some (Finmap.lookup_eq_some_iff.2 he)

/-- With the keys of the other end, each entry of both results counts once. -/
theorem summarize_totals (hd : direction ≠ .bidirectional)
    (hk : localResults.streams.keys = remoteResults.streams.keys) (ho : Enumerates localResults.streams order) :
    (summarize order remoteResults direction).totals =
      Totals.of (localResults.streams.entries + remoteResults.streams.entries) := by
  rw [summarize_counted ho, counted_of_keys hd hk]

/-- The lines that are not of a stream. -/
def sumLines (lines : List StatsLine) : List StatsLine := lines.filter (fun line => line.id = none)

theorem sumLines_printSummary :
    sumLines (printSummary localResults remoteResults direction order) =
      if len localResults.streams > 1 then (summarize order remoteResults direction).totals.lines else [] := by
  have hprinted : sumLines (summarize order remoteResults direction).printed = [] := by
    apply List.filter_eq_nil_iff.2
    intro line hl
    rw [summarize_printed] at hl
    obtain ⟨e, -, rfl⟩ := List.mem_map.1 hl
    simp [Summary.streamLine, printStats]
  unfold printSummary
  dsimp only
  split
  · unfold sumLines at *
    rw [List.filter_append, hprinted]
    rfl
  · exact hprinted

/-- The totals are those of all the entries, and both ends print them. -/
theorem printSummary_totals (hd : direction ≠ .bidirectional)
    (hk : localResults.streams.keys = remoteResults.streams.keys) (ho : Enumerates localResults.streams order)
    (ho' : Enumerates remoteResults.streams order') :
    (summarize order remoteResults direction).totals =
        Totals.of (localResults.streams.entries + remoteResults.streams.entries) ∧
      (summarize order' localResults direction).totals = (summarize order remoteResults direction).totals ∧
      sumLines (printSummary localResults remoteResults direction order) =
        (if len localResults.streams > 1 then
          (Totals.of (localResults.streams.entries + remoteResults.streams.entries)).lines else []) ∧
      sumLines (printSummary remoteResults localResults direction order') =
        sumLines (printSummary localResults remoteResults direction order) := by
  have hlocal := summarize_totals hd hk ho
  have hremote := summarize_totals hd hk.symm ho'
  have hlen : len remoteResults.streams = len localResults.streams := by
    unfold len
    rw [hk]
  rw [add_comm] at hremote
  refine ⟨hlocal, hremote.trans hlocal.symm, ?_, ?_⟩
  · rw [sumLines_printSummary, hlocal]
  · rw [sumLines_printSummary, sumLines_printSummary, hlen, hlocal, hremote]

/-- Two streams, which the ends go through in different orders. -/
theorem printSummary_totals_two :
    ∃ (localResults remoteResults : TestResults) (order order' : List (Entry StreamStats)),
      Enumerates localResults.streams order ∧ Enumerates remoteResults.streams order' ∧
      sumLines (printSummary remoteResults localResults .clientToServer order') =
        sumLines (printSummary localResults remoteResults .clientToServer order) := by
  let sent (n : Nat) : StreamStats := ⟨true, 10000, n, 1, none⟩
  let received (n : Nat) : StreamStats := ⟨false, 10001, n, 1, none⟩
  let localResults : TestResults := ⟨((∅ : Map StreamStats).insert 1 (sent 5)).insert 0 (sent 7)⟩
  let remoteResults : TestResults := ⟨((∅ : Map StreamStats).insert 0 (received 7)).insert 1 (received 4)⟩
  have ho : Enumerates localResults.streams [⟨0, sent 7⟩, ⟨1, sent 5⟩] := rfl
  have ho' : Enumerates remoteResults.streams [⟨1, received 4⟩, ⟨0, received 7⟩] := rfl
  have hk : localResults.streams.keys = remoteResults.streams.keys := by
    rw [keys_insert, keys_insert, keys_insert, keys_insert, Finset.insert_comm]
  have hd : Direction.clientToServer ≠ .bidirectional := by decide
  exact ⟨localResults, remoteResults, _, _, ho, ho', (printSummary_totals hd hk ho ho').2.2.2⟩

end

end Netperf
