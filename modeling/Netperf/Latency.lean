import Mathlib.Data.Finset.Sort
import Mathlib.Data.List.Sort
import Netperf.Figures
/-!
# The latency report

`print_latency_summary` of `netperf-core`'s `ui.rs`, up to the rounding of its
numbers. It goes through the ids of both results in ascending order, so the
order of the hash maps does not matter.
-/

namespace Netperf

open Maps

/-! ## What is printed (`ui.rs`) -/

structure IntervalLine where
  id : Nat
  what : String
  min : Figure
  p50 : Figure
  p90 : Figure
  p99 : Figure
  p100 : Figure
  mean : Figure
deriving DecidableEq

structure GoodputLine where
  min : Figure
  p50 : Figure
  p99 : Figure
  max : Figure
  n : Nat
  clock : Figure
  warmupDrop : Nat
deriving DecidableEq

inductive LatencyLine where
  | heading
  | interval (l : IntervalLine)
  | goodput (l : GoodputLine)
deriving DecidableEq

/-- The lines of a stream; a transport without goodput windows has no second one. -/
def LatencyStats.lines (lat : LatencyStats) (id : Nat) (sender : Bool) : List LatencyLine :=
  let what := if sender then "write-stall  (sender)  " else "arrival-gap  (receiver)"
  let d := lat.intervalNs
  let t := lat.throughputBps
  .interval ⟨id, what, humanizeNs d.min, humanizeNs d.p50, humanizeNs d.p90, humanizeNs d.p99, humanizeNs d.p100,
      humanizeNs d.mean⟩ ::
    if t.count > 0 then
      [.goodput ⟨humanizeBps t.min, humanizeBps t.p50, humanizeBps t.p99, humanizeBps t.p100, d.count,
        humanizeNs lat.clockBaselineNs, lat.warmupDiscarded⟩]
    else []

namespace TestResults

/-- `any` of `print_latency_summary` -/
def any (r : TestResults) : Bool := decide (0 < r.streams.entries.countP (fun e => e.2.latency.isSome = true))

/-- The body of the inner loop. -/
def latencyLines (r : TestResults) (id : Nat) : List LatencyLine :=
  match r.streams.lookup id with
  | none => []
  | some stats =>
    match stats.latency with
    | none => []
    | some lat => lat.lines id stats.sender

end TestResults

/-- The `BTreeSet` of the ids. -/
def latencyIds (locals remote : TestResults) : List Nat := (locals.streams.keys ∪ remote.streams.keys).sort

def printLatencySummary (locals remote : TestResults) : List LatencyLine :=
  if !locals.any && !remote.any then []
  else .heading :: (latencyIds locals remote).flatMap (fun id => [locals, remote].flatMap (fun r => r.latencyLines id))

/-! ## What has been measured -/

/-- A stream that one end has measured, the other one if `atRemote`. -/
structure Measured where
  id : Nat
  atRemote : Bool
  sender : Bool
  lat : LatencyStats
deriving DecidableEq

namespace Measured

def lines (m : Measured) : List LatencyLine := m.lat.lines m.id m.sender

/-- The stream is in the results of its end. -/
def Of (locals remote : TestResults) (m : Measured) : Prop :=
  ∃ s, (if m.atRemote then remote else locals).streams.lookup m.id = some s ∧ s.sender = m.sender ∧ s.latency = some m.lat

/-- Ids ascend, and of one id this end comes first. -/
def Before (m m' : Measured) : Prop := m.id < m'.id ∨ m.id = m'.id ∧ m.atRemote = false ∧ m'.atRemote = true

instance : Std.Irrefl Before :=
  ⟨fun m h => by
    rcases h with h | ⟨-, h, h'⟩
    · exact absurd h (Nat.lt_irrefl _)
    · rw [h] at h'
      cases h'⟩

/-- The list has what both ends have measured, in the order of the report. -/
structure Listing (locals remote : TestResults) (ms : List Measured) : Prop where
  ordered : ms.Pairwise Before
  mem : ∀ m, m ∈ ms ↔ m.Of locals remote

end Measured

/-- What an end has measured of a stream. -/
def TestResults.measured (r : TestResults) (atRemote : Bool) (id : Nat) : Option Measured :=
  (r.streams.lookup id).bind (fun s => s.latency.map (fun lat => ⟨id, atRemote, s.sender, lat⟩))

def measuredList (locals remote : TestResults) : List Measured :=
  (latencyIds locals remote).flatMap (fun id => (locals.measured false id).toList ++ (remote.measured true id).toList)

section
variable {locals remote r : TestResults} {m : Measured} {ms : List Measured} {atRemote : Bool} {id : Nat}

theorem measured_eq_some :
    r.measured atRemote id = some m ↔
      m.id = id ∧ m.atRemote = atRemote ∧ ∃ s, r.streams.lookup id = some s ∧ s.sender = m.sender ∧ s.latency = some m.lat := by
  unfold TestResults.measured
  constructor
  · intro h
    obtain ⟨s, hs, h⟩ := Option.bind_eq_some_iff.1 h
    obtain ⟨lat, hlat, rfl⟩ := Option.map_eq_some_iff.1 h
    exact ⟨rfl, rfl, s, hs, rfl, hlat⟩
  · rintro ⟨rfl, rfl, s, hs, hsender, hlat⟩
    rw [hs, Option.bind_some, hlat, Option.map_some, hsender]

theorem latencyLines_eq (r : TestResults) (atRemote : Bool) (id : Nat) :
    r.latencyLines id = (r.measured atRemote id).toList.flatMap Measured.lines := by
  unfold TestResults.latencyLines TestResults.measured
  cases r.streams.lookup id with
  | none => rfl
  | some s =>
    dsimp only [Option.bind_some]
    cases s.latency with
    | none => rfl
    | some lat => exact (List.flatMap_singleton _ _).symm

theorem any_iff : r.any = true ↔ ∃ id s, r.streams.lookup id = some s ∧ s.latency.isSome = true := by
  unfold TestResults.any
  rw [decide_eq_true_eq, Multiset.countP_pos]
  constructor
  · rintro ⟨⟨id, s⟩, hs, hlat⟩
    exact ⟨id, s, Finmap.lookup_eq_some_iff.2 hs, hlat⟩
  · rintro ⟨id, s, hs, hlat⟩
    exact ⟨⟨id, s⟩, Finmap.lookup_eq_some_iff.1 hs, hlat⟩

/-- Something has been measured exactly when the list is not empty. -/
theorem measured_nil_iff (h : Measured.Listing locals remote ms) : ms = [] ↔ (!locals.any && !remote.any) = true := by
  rw [Bool.and_eq_true, Bool.not_eq_true', Bool.not_eq_true', ← Bool.not_eq_true, ← Bool.not_eq_true, any_iff, any_iff]
  constructor
  · rintro rfl
    constructor
    · rintro ⟨id, s, hs, hlat⟩
      obtain ⟨lat, hlat⟩ := Option.isSome_iff_exists.1 hlat
      exact List.not_mem_nil ((h.mem ⟨id, false, s.sender, lat⟩).2 ⟨s, hs, rfl, hlat⟩)
    · rintro ⟨id, s, hs, hlat⟩
      obtain ⟨lat, hlat⟩ := Option.isSome_iff_exists.1 hlat
      exact List.not_mem_nil ((h.mem ⟨id, true, s.sender, lat⟩).2 ⟨s, hs, rfl, hlat⟩)
  · rintro ⟨hl, hr⟩
    apply List.eq_nil_iff_forall_not_mem.2
    intro m hm
    obtain ⟨s, hs, -, hlat⟩ := (h.mem m).1 hm
    have hsome : s.latency.isSome = true := by rw [hlat]; rfl
    cases hend : m.atRemote with
    | false => exact hl ⟨m.id, s, by simpa [hend] using hs, hsome⟩
    | true => exact hr ⟨m.id, s, by simpa [hend] using hs, hsome⟩

theorem mem_latencyIds : id ∈ latencyIds locals remote ↔ id ∈ locals.streams ∨ id ∈ remote.streams := by
  unfold latencyIds
  rw [Finset.mem_sort, Finset.mem_union, Finmap.mem_keys, Finmap.mem_keys]

/-- The report lists what has been measured, and there is one such list. -/
theorem listing_measuredList (locals remote : TestResults) : Measured.Listing locals remote (measuredList locals remote) := by
  constructor
  · unfold measuredList
    rw [List.pairwise_flatMap]
    constructor
    · intro id _
      rw [List.pairwise_append]
      refine ⟨?_, ?_, ?_⟩
      · cases locals.measured false id <;> simp
      · cases remote.measured true id <;> simp
      · intro m hm m' hm'
        obtain ⟨hid, hend, -⟩ := measured_eq_some.1 (Option.mem_toList.1 hm)
        obtain ⟨hid', hend', -⟩ := measured_eq_some.1 (Option.mem_toList.1 hm')
        exact .inr ⟨hid.trans hid'.symm, hend, hend'⟩
    · refine (Finset.sortedLT_sort _).pairwise.imp (fun {id id'} hlt m hm m' hm' => .inl ?_)
      have hids : ∀ {x : Measured} {i : Nat},
          x ∈ (locals.measured false i).toList ++ (remote.measured true i).toList → x.id = i := by
        intro x i hx
        rcases List.mem_append.1 hx with hx | hx
        · exact (measured_eq_some.1 (Option.mem_toList.1 hx)).1
        · exact (measured_eq_some.1 (Option.mem_toList.1 hx)).1
      rwa [hids hm, hids hm']
  · intro m
    unfold measuredList
    simp only [List.mem_flatMap, List.mem_append, Option.mem_toList, measured_eq_some, mem_latencyIds]
    constructor
    · rintro ⟨id, -, ⟨rfl, hend, s, hs⟩ | ⟨rfl, hend, s, hs⟩⟩
      · exact ⟨s, by simpa [hend] using hs⟩
      · exact ⟨s, by simpa [hend] using hs⟩
    · rintro ⟨s, hs, hrest⟩
      cases hend : m.atRemote with
      | false =>
        simp only [hend, Bool.false_eq_true, if_false] at hs
        exact ⟨m.id, .inl (Finmap.mem_of_lookup_eq_some hs), .inl ⟨rfl, rfl, s, hs, hrest⟩⟩
      | true =>
        simp only [hend, if_true] at hs
        exact ⟨m.id, .inr (Finmap.mem_of_lookup_eq_some hs), .inr ⟨rfl, rfl, s, hs, hrest⟩⟩

theorem Measured.Before.trans {m m' m'' : Measured} (h : m.Before m') (h' : m'.Before m'') : m.Before m'' := by
  rcases h with h | ⟨h, hl, hr⟩
  · rcases h' with h' | ⟨h', -, -⟩
    · exact .inl (h.trans h')
    · exact .inl (h' ▸ h)
  · rcases h' with h' | ⟨-, hl', -⟩
    · exact .inl (h ▸ h')
    · rw [hr] at hl'
      cases hl'

theorem Measured.Listing.unique {ms' : List Measured} (h : Listing locals remote ms) (h' : Listing locals remote ms') :
    ms' = ms := by
  have : IsTrans Measured Before := ⟨fun _ _ _ => Before.trans⟩
  exact h'.ordered.eq_of_mem_iff h.ordered (fun m => (h'.mem m).trans (h.mem m).symm)

theorem printLatencySummary_eq (h : Measured.Listing locals remote ms) :
    printLatencySummary locals remote = if ms = [] then [] else .heading :: ms.flatMap Measured.lines := by
  obtain rfl : measuredList locals remote = ms := h.unique (listing_measuredList locals remote)
  have hlines : (measuredList locals remote).flatMap Measured.lines =
      (latencyIds locals remote).flatMap (fun id => [locals, remote].flatMap (fun r => r.latencyLines id)) := by
    unfold measuredList
    rw [List.flatMap_assoc]
    congr 1
    funext id
    rw [List.flatMap_append, ← latencyLines_eq, ← latencyLines_eq]
    simp
  unfold printLatencySummary
  rw [hlines]
  simp only [measured_nil_iff h]

end

/-- For any two results the report has a heading and then, for each stream that
an end has measured and no other, the lines of that stream, by ascending id and
this end before the other; where nothing has been measured it is empty. The
other end prints the same lines. -/
theorem latency_report (locals remote : TestResults) :
    (∃ ms, Measured.Listing locals remote ms ∧ (∀ ms', Measured.Listing locals remote ms' → ms' = ms) ∧
      printLatencySummary locals remote = if ms = [] then [] else .heading :: ms.flatMap Measured.lines) ∧
      (printLatencySummary remote locals).Perm (printLatencySummary locals remote) := by
  have h := listing_measuredList locals remote
  refine ⟨⟨_, h, fun _ => h.unique, printLatencySummary_eq h⟩, ?_⟩
  have hids : latencyIds remote locals = latencyIds locals remote := by
    unfold latencyIds
    rw [Finset.union_comm]
  unfold printLatencySummary
  rw [hids, Bool.and_comm]
  split
  · exact .nil
  · apply List.Perm.cons
    apply List.Perm.flatMap_left
    intro id _
    simpa using List.perm_append_comm

end Netperf
