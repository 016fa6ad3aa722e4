import Netperf.Figures
import Netperf.Lib.Checked
import Netperf.Lib.Sums
import Netperf.Ui
/-!
# Whether the summary overflows

`print_summary` with every operation on a `u64` checked: the end point and the
bit count of each line, and the sums of the bytes.
-/

namespace Netperf

open Maps

/-- What a line shows of its bytes. -/
def StatsLine.transfer (line : StatsLine) : Figure := humanizeBytes line.bytesTransferred

def StatsLine.bitrate (line : StatsLine) : Figure := humanizeBitrate line.bytesTransferred line.durationMillis

/-! ## The checked summary -/

/-- `print_stats`. The bit count is that of `humanize_bitrate`. -/
def checkedStats (id : Option Nat) (offsetFromStartMillis durationMillis bytesTransferred : Nat) (sender : Bool) :
    Option StatsLine := do
  let endPoint ← Checked.add u64Size offsetFromStartMillis durationMillis
  let _bits ← Checked.mul u64Size bytesTransferred 8
  some { id, offsetFromStartMillis, endPoint, durationMillis, bytesTransferred, sender }

def Totals.checkedAdd (t : Totals) (stats : StreamStats) : Option Totals :=
  if stats.sender then do
    let senderBytesTransferred ← Checked.add u64Size t.senderBytesTransferred stats.bytesTransferred
    some { t with senderBytesTransferred, senderDurationMillis := max t.senderDurationMillis stats.durationMillis }
  else do
    let receiverBytesTransferred ← Checked.add u64Size t.receiverBytesTransferred stats.bytesTransferred
    some { t with receiverBytesTransferred, receiverDurationMillis := max t.receiverDurationMillis stats.durationMillis }

namespace Summary

def checkedStream (s : Summary) (e : Entry StreamStats) : Option Summary := do
  let line ← checkedStats (some e.1) 0 e.2.durationMillis e.2.bytesTransferred e.2.sender
  let totals ← s.totals.checkedAdd e.2
  some { printed := s.printed ++ [line], totals }

def checkedEntry (remoteResults : TestResults) (direction : Direction) (s : Summary) (e : Entry StreamStats) :
    Option Summary := do
  let s ← s.checkedStream e
  if direction ≠ .bidirectional then
    match remoteResults.streams.lookup e.1 with
    | some remoteStats => s.checkedStream ⟨e.1, remoteStats⟩
    | none => some s
  else some s

end Summary

def Totals.checkedLines (t : Totals) : Option (List StatsLine) := do
  let sending ← checkedStats none 0 t.senderDurationMillis t.senderBytesTransferred true
  let receiving ← checkedStats none 0 t.receiverDurationMillis t.receiverBytesTransferred false
  some [sending, receiving]

/-- `print_summary`; `none` is an overflow. -/
def checkedSummary (localResults remoteResults : TestResults) (direction : Direction)
    (order : List (Entry StreamStats)) : Option (List StatsLine) := do
  let s ← order.foldlM (Summary.checkedEntry remoteResults direction) ⟨[], .zero⟩
  if len localResults.streams > 1 then do
    let lines ← s.totals.checkedLines
    some (s.printed ++ lines)
  else some s.printed

/-! ## When one operation fits -/

/-- The bytes of a role. -/
def Totals.bytes (t : Totals) (sender : Bool) : Nat :=
  if sender then t.senderBytesTransferred else t.receiverBytesTransferred

section
variable {id : Option Nat} {offset duration bytes : Nat} {sender : Bool} {line : StatsLine} {t t' : Totals}
  {stats : StreamStats} {s s' : Summary} {e : Entry StreamStats}

theorem checkedStats_eq_some :
    checkedStats id offset duration bytes sender = some line ↔
      (offset + duration < u64Size ∧ bytes * 8 < u64Size) ∧ line = printStats id offset duration bytes sender := by
  unfold checkedStats printStats
  simp only [Option.bind_eq_bind, Option.bind_eq_some_iff, Checked.add_eq_some, Checked.mul_eq_some]
  constructor
  · rintro ⟨_, ⟨hend, rfl⟩, _, ⟨hbits, -⟩, h⟩
    exact ⟨⟨hend, hbits⟩, (Option.some.inj h).symm⟩
  · rintro ⟨⟨hend, hbits⟩, rfl⟩
    exact ⟨_, ⟨hend, rfl⟩, _, ⟨hbits, rfl⟩, rfl⟩

theorem checkedAdd_eq_some :
    t.checkedAdd stats = some t' ↔
      t.bytes stats.sender + stats.bytesTransferred < u64Size ∧ t' = t.add stats := by
  unfold Totals.checkedAdd Totals.bytes Totals.add
  split
  · simp only [Option.bind_eq_bind, Option.bind_eq_some_iff, Checked.add_eq_some]
    constructor
    · rintro ⟨_, ⟨hsum, rfl⟩, h⟩
      exact ⟨hsum, (Option.some.inj h).symm⟩
    · rintro ⟨hsum, rfl⟩
      exact ⟨_, ⟨hsum, rfl⟩, rfl⟩
  · simp only [Option.bind_eq_bind, Option.bind_eq_some_iff, Checked.add_eq_some]
    constructor
    · rintro ⟨_, ⟨hsum, rfl⟩, h⟩
      exact ⟨hsum, (Option.some.inj h).symm⟩
    · rintro ⟨hsum, rfl⟩
      exact ⟨_, ⟨hsum, rfl⟩, rfl⟩

theorem checkedStream_eq_some :
    s.checkedStream e = some s' ↔
      (e.2.durationMillis < u64Size ∧ e.2.bytesTransferred * 8 < u64Size ∧
        s.totals.bytes e.2.sender + e.2.bytesTransferred < u64Size) ∧ s' = s.stream e := by
  unfold Summary.checkedStream Summary.stream
  simp only [Option.bind_eq_bind, Option.bind_eq_some_iff, checkedStats_eq_some, checkedAdd_eq_some, Nat.zero_add]
  constructor
  · rintro ⟨_, ⟨⟨hend, hbits⟩, rfl⟩, _, ⟨hsum, rfl⟩, h⟩
    exact ⟨⟨hend, hbits, hsum⟩, (Option.some.inj h).symm⟩
  · rintro ⟨⟨hend, hbits, hsum⟩, rfl⟩
    exact ⟨_, ⟨⟨hend, hbits⟩, rfl⟩, _, ⟨hsum, rfl⟩, rfl⟩

theorem checkedLines_eq_some {lines : List StatsLine} :
    t.checkedLines = some lines ↔
      (t.senderDurationMillis < u64Size ∧ t.receiverDurationMillis < u64Size ∧
        ∀ sender, t.bytes sender * 8 < u64Size) ∧ lines = t.lines := by
  unfold Totals.checkedLines Totals.lines
  simp only [Option.bind_eq_bind, Option.bind_eq_some_iff, checkedStats_eq_some, Nat.zero_add]
  constructor
  · rintro ⟨_, ⟨⟨hsending, hsent⟩, rfl⟩, _, ⟨⟨hreceiving, hreceived⟩, rfl⟩, h⟩
    exact ⟨⟨hsending, hreceiving, Bool.forall_bool.2 ⟨hreceived, hsent⟩⟩, (Option.some.inj h).symm⟩
  · rintro ⟨⟨hsending, hreceiving, hbits⟩, rfl⟩
    exact ⟨_, ⟨⟨hsending, hbits true⟩, rfl⟩, _, ⟨⟨hreceiving, hbits false⟩, rfl⟩, rfl⟩

end

/-! ## When the loop fits -/

theorem Totals.bytes_add (t : Totals) (stats : StreamStats) (sender : Bool) :
    (t.add stats).bytes sender =
      if stats.sender = sender then (t.bytes sender + stats.bytesTransferred) % u64Size else t.bytes sender := by
  unfold Totals.add Totals.bytes
  cases stats.sender <;> cases sender <;> rfl

theorem Totals.bytes_of (es : Multiset (Entry StreamStats)) (sender : Bool) :
    (Totals.of es).bytes sender = bytesOf sender es % u64Size := by
  cases sender <;> rfl

namespace Summary

variable {s : Summary} {e : Entry StreamStats} {l : List (Entry StreamStats)}

/-- The sums are numbers of 64 bits. -/
def InRange (s : Summary) : Prop := ∀ sender, s.totals.bytes sender < u64Size

/-- The numbers of each entry fit, and so do the sums with all of them. -/
def Fits (l : List (Entry StreamStats)) (s : Summary) : Prop :=
  (∀ e ∈ l, e.2.durationMillis < u64Size ∧ e.2.bytesTransferred * 8 < u64Size) ∧
    ∀ sender, s.totals.bytes sender + bytesOf sender l < u64Size

theorem InRange.stream (h : s.InRange) (e : Entry StreamStats) : (s.stream e).InRange := by
  intro sender
  change (s.totals.add e.2).bytes sender < u64Size
  rw [Totals.bytes_add]
  split
  · exact Nat.mod_lt _ (by decide)
  · exact h sender

theorem InRange.fits_nil (h : s.InRange) : s.Fits [] := by
  constructor
  · intro e he
    cases he
  · exact h

theorem fits_cons :
    s.Fits (e :: l) ↔ s.checkedStream e = some (s.stream e) ∧ (s.stream e).Fits l := by
  -- Without a wrap, what the entry adds to the sum is what it takes from the rest.
  have hmove (hfit : s.totals.bytes e.2.sender + e.2.bytesTransferred < u64Size) (sender : Bool) :
      (s.stream e).totals.bytes sender + bytesOf sender l = s.totals.bytes sender + bytesOf sender ↑(e :: l) := by
    change (s.totals.add e.2).bytes sender + _ = _
    rw [Totals.bytes_add, ← Multiset.cons_coe, bytesOf_cons]
    by_cases hs : e.2.sender = sender
    · subst hs
      rw [if_pos rfl, if_pos rfl, Nat.mod_eq_of_lt hfit, Nat.add_assoc]
    · rw [if_neg hs, if_neg hs, Nat.zero_add]
  unfold Fits
  rw [checkedStream_eq_some, List.forall_mem_cons]
  constructor
  · rintro ⟨⟨⟨hend, hbits⟩, hall⟩, hsum⟩
    have hfit : s.totals.bytes e.2.sender + e.2.bytesTransferred < u64Size := by
      have h := hsum e.2.sender
      rw [← Multiset.cons_coe, bytesOf_cons, if_pos rfl] at h
      omega
    refine ⟨⟨⟨hend, hbits, hfit⟩, rfl⟩, hall, ?_⟩
    intro sender
    rw [hmove hfit sender]
    exact hsum sender
  · rintro ⟨⟨⟨hend, hbits, hfit⟩, -⟩, hall, hsum⟩
    refine ⟨⟨⟨hend, hbits⟩, hall⟩, ?_⟩
    intro sender
    rw [← hmove hfit sender]
    exact hsum sender

theorem checkedEntry_eq (remoteResults : TestResults) (direction : Direction) (s : Summary) (e : Entry StreamStats) :
    s.checkedEntry remoteResults direction e =
      (e :: (counterpart remoteResults direction e).toList).foldlM checkedStream s := by
  unfold checkedEntry counterpart other
  rw [List.foldlM_cons]
  congr 1
  funext s
  split
  · cases remoteResults.streams.lookup e.1 <;> simp
  · rfl

end Summary

section
variable {localResults remoteResults : TestResults} {direction : Direction} {order : List (Entry StreamStats)}

theorem checkedLoop_eq (remoteResults : TestResults) (direction : Direction) (order : List (Entry StreamStats)) :
    order.foldlM (Summary.checkedEntry remoteResults direction) ⟨[], .zero⟩ =
      (printedStreams order remoteResults direction).foldlM Summary.checkedStream ⟨[], .zero⟩ := by
  unfold printedStreams
  rw [Lists.foldlM_flatMap]
  congr 1
  funext s e
  exact Summary.checkedEntry_eq remoteResults direction s e

theorem checkedLoop_of_some {s : Summary}
    (h : order.foldlM (Summary.checkedEntry remoteResults direction) ⟨[], .zero⟩ = some s) :
    s = summarize order remoteResults direction := by
  rw [checkedLoop_eq] at h
  rw [summarize_eq]
  apply Checked.foldlM_eq _ h
  intro s e s' hs
  exact (checkedStream_eq_some.1 hs).2

/-- The loop goes through when all the numbers fit, and the sums of them. -/
theorem checkedLoop_eq_some_iff (ho : Enumerates localResults.streams order) :
    order.foldlM (Summary.checkedEntry remoteResults direction) ⟨[], .zero⟩ =
        some (summarize order remoteResults direction) ↔
      (∀ e ∈ counted localResults remoteResults direction,
        e.2.durationMillis < u64Size ∧ e.2.bytesTransferred * 8 < u64Size) ∧
        ∀ sender, bytesOf sender (counted localResults remoteResults direction) < u64Size := by
  have hzero : Summary.InRange ⟨[], .zero⟩ := by
    intro sender
    cases sender <;> decide
  have hfits : (printedStreams order remoteResults direction).foldlM Summary.checkedStream ⟨[], .zero⟩ =
      some ((printedStreams order remoteResults direction).foldl Summary.stream ⟨[], .zero⟩) ↔
        Summary.Fits (printedStreams order remoteResults direction) ⟨[], .zero⟩ :=
    Checked.foldlM_eq_some_iff (fun s e s' h => (checkedStream_eq_some.1 h).2)
      (fun s e (h : s.InRange) => h.stream e) (fun s h => h.fits_nil) (fun s e l _ => Summary.fits_cons) hzero
  have hsum (n : Nat) (sender : Bool) : Totals.zero.bytes sender + n = n := by
    cases sender <;> exact Nat.zero_add n
  rw [checkedLoop_eq, summarize_eq, hfits, ← coe_printedStreams ho]
  unfold Summary.Fits
  simp only [hsum, Multiset.mem_coe]

/-! ## When the summary fits -/

/-- The counters that are printed are numbers of 64 bits, whoever counted them. -/
def TestResults.InRange (results : TestResults) : Prop :=
  ∀ e ∈ results.streams.entries, e.2.durationMillis < u64Size ∧ e.2.bytesTransferred < u64Size

instance (results : TestResults) : Decidable results.InRange :=
  inferInstanceAs (Decidable (∀ e ∈ results.streams.entries, _ ∧ _))

theorem mem_counted {e : Entry StreamStats} (he : e ∈ counted localResults remoteResults direction) :
    e ∈ localResults.streams.entries ∨ e ∈ remoteResults.streams.entries := by
  unfold counted at he
  rcases Multiset.mem_add.1 he with he | he
  · exact .inl he
  · split at he
    · exact .inr (Multiset.mem_filter.1 he).1
    · cases he

theorem duration_lt (hl : localResults.InRange) (hr : remoteResults.InRange) :
    ∀ e ∈ counted localResults remoteResults direction, e.2.durationMillis < u64Size := by
  intro e he
  rcases mem_counted he with he | he
  · exact (hl e he).1
  · exact (hr e he).1

theorem durationOf_lt {es : Multiset (Entry StreamStats)} (h : ∀ e ∈ es, e.2.durationMillis < u64Size) (sender : Bool) :
    durationOf sender es < u64Size := by
  apply Nat.lt_of_le_pred (by decide)
  apply Multiset.sup_le.2
  intro n hn
  obtain ⟨e, he, rfl⟩ := Multiset.mem_map.1 hn
  exact Nat.le_pred_of_lt (h e (Multiset.mem_filter.1 he).1)

theorem bytesOf_le {es : Multiset (Entry StreamStats)} {b : Nat} (h : ∀ e ∈ es, e.2.bytesTransferred ≤ b)
    (sender : Bool) : bytesOf sender es ≤ es.card * b := by
  induction es using Multiset.induction_on with
  | empty => exact Nat.zero_le _
  | cons e es ih =>
    have he := h e (Multiset.mem_cons_self e es)
    have hes := ih (fun e he => h e (Multiset.mem_cons_of_mem he))
    rw [bytesOf_cons, Multiset.card_cons, Nat.add_mul, Nat.one_mul]
    split <;> omega

/-- A stream is counted at most at both ends. -/
theorem card_counted_le (ho : Enumerates localResults.streams order) :
    (counted localResults remoteResults direction).card ≤ 2 * len localResults.streams := by
  have hlen := ho.length_eq
  have hperm := Lists.flatMap_toList_perm (Summary.counterpart remoteResults direction) order
  have hle := List.length_filterMap_le (Summary.counterpart remoteResults direction) order
  rw [← coe_printedStreams ho, Multiset.coe_card]
  unfold printedStreams
  rw [hperm.length_eq, List.length_append]
  omega

/-- No sum overflows when each number of a single stream fits, or the sums of several do. -/
theorem bytesOf_lt (ho : Enumerates localResults.streams order)
    (hbytes : ∀ e ∈ counted localResults remoteResults direction, e.2.bytesTransferred < 2 ^ 61)
    (hsums : 1 < len localResults.streams →
      ∀ sender, bytesOf sender (counted localResults remoteResults direction) < 2 ^ 61) (sender : Bool) :
    bytesOf sender (counted localResults remoteResults direction) < u64Size := by
  by_cases hlen : 1 < len localResults.streams
  · exact Nat.lt_trans (hsums hlen sender) (by decide)
  · have hcard : (counted localResults remoteResults direction).card ≤ 2 * len localResults.streams := card_counted_le ho
    have hle := bytesOf_le (fun e he => Nat.le_pred_of_lt (hbytes e he)) sender
    have htwo := Nat.mul_le_mul_right (2 ^ 61 - 1) (Nat.le_trans hcard (Nat.mul_le_mul_left 2 (Nat.not_lt.1 hlen)))
    have hu : 2 * 1 * (2 ^ 61 - 1) < u64Size := by decide
    exact Nat.lt_of_le_of_lt (Nat.le_trans hle htwo) hu

/-- A summary that goes through is the wrapping one, and each of its bit counts fits. -/
theorem of_checkedSummary {lines : List StatsLine} (ho : Enumerates localResults.streams order)
    (h : checkedSummary localResults remoteResults direction order = some lines) :
    (∀ e ∈ counted localResults remoteResults direction, e.2.bytesTransferred < 2 ^ 61) ∧
      (1 < len localResults.streams →
        ∀ sender, bytesOf sender (counted localResults remoteResults direction) < 2 ^ 61) ∧
      lines = printSummary localResults remoteResults direction order := by
  have htotals : (summarize order remoteResults direction).totals =
      Totals.of (counted localResults remoteResults direction) := summarize_counted ho
  have hu : u64Size = 2 ^ 61 * 8 := by decide
  unfold checkedSummary at h
  obtain ⟨s, hs, h⟩ := Option.bind_eq_some_iff.1 h
  obtain rfl := checkedLoop_of_some hs
  obtain ⟨hnumbers, hsums⟩ := (checkedLoop_eq_some_iff ho).1 hs
  refine ⟨?_, ?_⟩
  · intro e he
    have hbits := (hnumbers e he).2
    omega
  · unfold printSummary
    dsimp only
    split at h
    · rename_i hlen
      obtain ⟨sums, hlines, h⟩ := Option.bind_eq_some_iff.1 h
      obtain ⟨⟨-, -, hbits⟩, rfl⟩ := checkedLines_eq_some.1 hlines
      rw [if_pos hlen]
      refine ⟨?_, (Option.some.inj h).symm⟩
      intro _ sender
      have hfit := hbits sender
      rw [htotals, Totals.bytes_of, Nat.mod_eq_of_lt (hsums sender)] at hfit
      omega
    · rename_i hlen
      rw [if_neg hlen]
      exact ⟨fun hlt => absurd hlt hlen, (Option.some.inj h).symm⟩

/-- The lines are of the entries, and of their sums when there are several. -/
theorem bytes_of_mem_printSummary {line : StatsLine} (ho : Enumerates localResults.streams order)
    (hline : line ∈ printSummary localResults remoteResults direction order) :
    (∃ e ∈ counted localResults remoteResults direction, line.bytesTransferred = e.2.bytesTransferred) ∨
      (1 < len localResults.streams ∧
        ∃ sender, line.bytesTransferred = bytesOf sender (counted localResults remoteResults direction) % u64Size) := by
  have hstream (hmem : line ∈ (summarize order remoteResults direction).printed) :
      ∃ e ∈ counted localResults remoteResults direction, line.bytesTransferred = e.2.bytesTransferred := by
    rw [summarize_printed] at hmem
    obtain ⟨e, he, rfl⟩ := List.mem_map.1 hmem
    refine ⟨e, ?_, rfl⟩
    rw [← coe_printedStreams ho]
    exact he
  unfold printSummary at hline
  dsimp only at hline
  split at hline
  · rename_i hlen
    rcases List.mem_append.1 hline with hmem | hmem
    · exact .inl (hstream hmem)
    · rw [summarize_counted ho] at hmem
      unfold Totals.lines at hmem
      simp only [List.mem_cons, List.not_mem_nil, or_false] at hmem
      rcases hmem with rfl | rfl
      · exact .inr ⟨hlen, true, rfl⟩
      · exact .inr ⟨hlen, false, rfl⟩
  · exact .inl (hstream hline)

/-- In a summary that goes through the figures of each line are exact, and the bytes have their unit. -/
theorem checkedSummary_exact {lines : List StatsLine} (ho : Enumerates localResults.streams order)
    (h : checkedSummary localResults remoteResults direction order = some lines) :
    ∀ line ∈ lines, line.transfer.Fits byteScale line.bytesTransferred ∧
      line.bitrate.mantissa * line.bitrate.tier.size = bitRate line.bytesTransferred line.durationMillis := by
  obtain ⟨hbytes, hsums, rfl⟩ := of_checkedSummary ho h
  intro line hline
  constructor
  · exact humanize_fits byteScale line.bytesTransferred
  · apply humanizeBitrate_exact
    rcases bytes_of_mem_printSummary ho hline with ⟨e, he, heq⟩ | ⟨hlen, sender, heq⟩
    · rw [heq]
      exact hbytes e he
    · rw [heq]
      exact Nat.lt_of_le_of_lt (Nat.mod_le _ _) (hsums hlen sender)

/-- The summary goes through, and says what the wrapping one says, exactly when the bit counts fit: of each
entry and, when there are several streams, of the sums of both roles. -/
theorem checkedSummary_iff (hl : localResults.InRange) (hr : remoteResults.InRange)
    (ho : Enumerates localResults.streams order) :
    checkedSummary localResults remoteResults direction order =
        some (printSummary localResults remoteResults direction order) ↔
      (∀ e ∈ counted localResults remoteResults direction, e.2.bytesTransferred < 2 ^ 61) ∧
        (1 < len localResults.streams →
          ∀ sender, bytesOf sender (counted localResults remoteResults direction) < 2 ^ 61) := by
  have hduration : ∀ e ∈ counted localResults remoteResults direction, e.2.durationMillis < u64Size := duration_lt hl hr
  have htotals : (summarize order remoteResults direction).totals =
      Totals.of (counted localResults remoteResults direction) := summarize_counted ho
  have hu : u64Size = 2 ^ 61 * 8 := by decide
  constructor
  · intro h
    obtain ⟨hbytes, hsums, -⟩ := of_checkedSummary ho h
    exact ⟨hbytes, hsums⟩
  · rintro ⟨hbytes, hsums⟩
    have hlt := bytesOf_lt ho hbytes hsums
    have hnumbers : ∀ e ∈ counted localResults remoteResults direction,
        e.2.durationMillis < u64Size ∧ e.2.bytesTransferred * 8 < u64Size := by
      intro e he
      have hb := hbytes e he
      exact ⟨hduration e he, by omega⟩
    have hloop := (checkedLoop_eq_some_iff ho).2 ⟨hnumbers, hlt⟩
    unfold checkedSummary printSummary
    rw [hloop, Option.bind_eq_bind, Option.bind_some]
    dsimp only
    split
    · rename_i hlen
      have hbits (sender : Bool) :
          (Totals.of (counted localResults remoteResults direction)).bytes sender * 8 < u64Size := by
        have hb := hsums hlen sender
        rw [Totals.bytes_of, Nat.mod_eq_of_lt (hlt sender)]
        omega
      have hlines := checkedLines_eq_some.2 ⟨⟨durationOf_lt hduration true, durationOf_lt hduration false, hbits⟩, rfl⟩
      rw [htotals, hlines]
      rfl
    · rfl

end

def tenSeconds (sender : Bool) (bytes : Nat) : StreamStats := ⟨sender, 10000, bytes, 1, none⟩

/-- Two streams of a gigabyte in ten seconds, counted at both ends. -/
theorem checkedSummary_two :
    ∃ (localResults remoteResults : TestResults) (order : List (Entry StreamStats)),
      len localResults.streams = 2 ∧ checkedSummary localResults remoteResults .clientToServer order =
        some (printSummary localResults remoteResults .clientToServer order) := by
  let stats (sender : Bool) : StreamStats := tenSeconds sender 1000000000
  let results (sender : Bool) : TestResults := ⟨((∅ : Map StreamStats).insert 1 (stats sender)).insert 0 (stats sender)⟩
  have hin (sender : Bool) : (results sender).InRange := by
    cases sender <;> decide
  have ho : Enumerates (results true).streams [⟨0, stats true⟩, ⟨1, stats true⟩] := rfl
  exact ⟨results true, results false, _, rfl, (checkedSummary_iff (hin true) (hin false) ho).2 (by decide)⟩

/-- The results of an end with one stream. -/
def oneStream (sender : Bool) (bytes : Nat) : TestResults := ⟨(∅ : Map StreamStats).insert 0 (tenSeconds sender bytes)⟩

/-- The bit count of a peer that claims `2 ^ 61` bytes overflows: its line shows no bits at all. -/
theorem checkedSummary_overflows :
    (oneStream true 1000000000).InRange ∧ (oneStream false (2 ^ 61)).InRange ∧
      Enumerates (oneStream true 1000000000).streams [⟨0, tenSeconds true 1000000000⟩] ∧
      checkedSummary (oneStream true 1000000000) (oneStream false (2 ^ 61)) .clientToServer
        [⟨0, tenSeconds true 1000000000⟩] = none ∧
      ∃ line ∈ printSummary (oneStream true 1000000000) (oneStream false (2 ^ 61)) .clientToServer
          [⟨0, tenSeconds true 1000000000⟩],
        line.bytesTransferred = 2 ^ 61 ∧ line.bitrate = ⟨0, bitsTier⟩ := by
  refine ⟨by decide, by decide, rfl, by decide, ?_⟩
  exact ⟨printStats (some 0) 0 10000 (2 ^ 61) false, by decide, rfl, by decide +kernel⟩

end Netperf
