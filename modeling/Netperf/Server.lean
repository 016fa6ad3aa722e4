import Netperf.ServerTest
import Netperf.NetUtils
/-!
# The server

`run_server`: the accept loop, and the tests it has started. It handles one
connection at a time; a connection is the bytes its peer will send, and whether
the peer then closes it.

The `Weak` reference to the state of the test in flight and the sender of its
controller's channel are two variables, each the number of a test. The weak
reference upgrades as long as that test's controller has not returned.
-/

namespace Netperf

open Frames

/-! ## Reading a connection -/

/-- The `Debug` text of an unexpected message is left out of its error. -/
def readCookie (decode : List UInt8 → Option ClientEnvelope) (socket : Source) : Read String :=
  match serverReadMessage decode socket with
  | .ok (.hello cookie) rest => .ok cookie rest
  | .ok _ rest => .err (.message "Client sent the wrong welcome message") rest
  | .err _ rest => .err (.message "Failed to finish initial negotiation") rest
  | .pending => .pending
  | .panic => .panic

def readTestParameters (decode : List UInt8 → Option ClientEnvelope) (stream : Source) : Read TestParameters :=
  match serverReadMessage decode stream with
  | .ok (.sendParameters params) rest => .ok params rest
  | .ok _ rest => .err (.message "Unexpected message, we expect SendParameters") rest
  | .err e rest => .err e rest
  | .pending => .pending
  | .panic => .panic

section
variable (decode : List UInt8 → Option ClientEnvelope) (socket : Source)

theorem readCookie_settles : (readCookie decode socket).Settles socket := by
  have h := readMessage_settles decode ClientEnvelope.result socket
  unfold readCookie serverReadMessage
  split <;> simp_all [Read.Settles]

theorem readTestParameters_settles : (readTestParameters decode socket).Settles socket := by
  have h := readMessage_settles decode ClientEnvelope.result socket
  unfold readTestParameters serverReadMessage
  split <;> simp_all [Read.Settles]

end

/-! ## The accept loop -/

/-- The awaits of the accept loop, with the number `c` of the connection and the
number `k` of the test in flight. -/
inductive AcceptPc where
  /-- `listener.accept()` -/
  | accepting
  /-- `state_lock.lock()` -/
  | locking (c k : Nat)
  /-- `read_cookie` on a data connection; the guard of the state is held. -/
  | helloData (c k : Nat) (cookie : String)
  /-- `server_send_message(Welcome)` on a data connection; the guard is held. -/
  | welcomeData (c k : Nat)
  /-- About to `try_send` the connection; the guard is held. -/
  | handing (c k : Nat)
  /-- `server_send_error(AccessDenied)`; after a wrong cookie the guard is held. -/
  | denying (c : Nat) (held : Option Nat)
  /-- `create_test`: `read_cookie`, the `Welcome`, and the parameters. -/
  | hello (c : Nat)
  | welcome (c : Nat) (cookie : String) (socket : Source)
  | params (c : Nat) (cookie : String) (socket : Source)
  /-- `run_server` has returned, and the process is over. -/
  | returned
deriving DecidableEq

structure Server where
  pc : AcceptPc
  inFlight : Option Nat
  channel : Option Nat
  tests : List ServerTest
  conns : List Source
  /-- What the accept loop has written, and on which connection. -/
  answers : List (Nat × ServerEnvelope)
deriving DecidableEq

inductive NetEvent where
  /-- A connection comes in that will carry these bytes. -/
  | accept (socket : Source)
  | lock
  | read
  | write (ok : Bool)
  | send
  /-- The timer of `create_test` expires. -/
  | timeout
  /-- A step of test `k`, its controller's, a worker's or its client's. -/
  | test (k : Nat) (e : ServerEvent)
deriving DecidableEq

/-- The steps of a test that the accept loop takes. -/
def ServerEvent.ofAcceptLoop : ServerEvent → Bool
  | .guard | .unguard | .offer _ => true
  | _ => false

def accessDenied : ServerEnvelope := .error (.accessDenied "Test already in-flight")

namespace Server

def init : Server :=
  { pc := .accepting, inFlight := none, channel := none, tests := [], conns := [], answers := [] }

def live (s : Server) (k : Nat) : Bool := (s.tests[k]?).any (fun t => !t.returned)

/-- `in_flight_test_state.upgrade()` -/
def upgrade (s : Server) : Option Nat := s.inFlight.filter s.live

/-- Drops the guard of a test's state. -/
def release (s : Server) (k : Nat) : Server :=
  { s with tests := s.tests.modify k (fun t => { t with locked := false }) }

/-- An error that `run_server` propagates, while it holds the guard. -/
def fail (s : Server) (k : Nat) : Server := { s.release k with pc := .returned }

/-- `controller_channel.clone().unwrap().try_send(CreateStream(inbound))` -/
def handOver (s : Server) (c : Nat) : Option Server :=
  match s.channel with
  | none => none
  | some j =>
    match s.tests[j]? with
    | none => none
    | some t =>
      if t.returned then none
      else
        (t.trySend (.createStream c)).map
          (fun d => { s with tests := s.tests.set j { t with toTestController := d } })

def step (decode : List UInt8 → Option ClientEnvelope) (s : Server) : NetEvent → Option Server
  | .accept socket =>
    match s.pc with
    | .accepting =>
      let c := s.conns.length
      match s.upgrade with
      | some k => some { s with conns := s.conns ++ [socket], pc := .locking c k }
      | none => some { s with conns := s.conns ++ [socket], pc := .hello c }
    | _ => none
  | .lock =>
    match s.pc with
    | .locking c k =>
      match s.tests[k]? with
      | none => none
      | some t =>
        if t.locked then none
        else
          match t.state with
          | .createStreams cookie =>
            some { s with tests := s.tests.set k { t with locked := true }, pc := .helloData c k cookie }
          | _ => some { s with pc := .denying c none }
    | _ => none
  | .read =>
    match s.pc with
    | .helloData c k cookie =>
      match s.conns[c]? with
      | none => none
      | some socket =>
        match readCookie decode socket with
        | .ok clientCookie _ =>
          if clientCookie = cookie then some { s with pc := .welcomeData c k }
          else some { s with pc := .denying c (some k) }
        | .pending => none
        | _ => some (s.fail k)
    | .hello c =>
      match s.conns[c]? with
      | none => none
      | some socket =>
        match readCookie decode socket with
        | .ok cookie rest => some { s with pc := .welcome c cookie rest }
        | .err _ _ => some { s with pc := .accepting }
        | .pending => none
        | .panic => some { s with pc := .returned }
    | .params _ cookie socket =>
      match readTestParameters decode socket with
      | .ok params _ =>
        let k := s.tests.length
        some { s with
          tests := s.tests ++ [ServerTest.new cookie params]
          inFlight := some k
          channel := some k
          pc := .accepting }
      | .err _ _ => some { s with pc := .accepting }
      | .pending => none
      | .panic => some { s with pc := .returned }
    | _ => none
  | .write ok =>
    match s.pc with
    | .welcomeData c k =>
      if ok then some { s with answers := s.answers ++ [(c, .serverMessage .welcome)], pc := .handing c k }
      else some (s.fail k)
    | .denying c held =>
      let s := match held with
        | some k => s.release k
        | none => s
      some { s with answers := if ok then s.answers ++ [(c, accessDenied)] else s.answers, pc := .accepting }
    | .welcome c cookie socket =>
      if ok then
        some { s with answers := s.answers ++ [(c, .serverMessage .welcome)], pc := .params c cookie socket }
      else some { s with pc := .accepting }
    | _ => none
  | .send =>
    match s.pc with
    | .handing c k =>
      match s.handOver c with
      | some s => some { s.release k with pc := .accepting }
      | none => some (s.fail k)
    | _ => none
  | .timeout =>
    match s.pc with
    | .params _ _ _ => some { s with pc := .accepting }
    | _ => none
  | .test k e =>
    if s.pc = .returned ∨ e.ofAcceptLoop then none
    else ((s.tests[k]?).bind (fun t => t.step e)).map (fun t => { s with tests := s.tests.set k t })

/-! ## The transitions -/

/-- Everything an event can do: the branches of `step`, one constructor each. -/
inductive Step (decode : List UInt8 → Option ClientEnvelope) : Server → NetEvent → Server → Prop
  | accept {s socket k} : s.pc = .accepting → s.upgrade = some k →
      Step decode s (.accept socket) { s with conns := s.conns ++ [socket], pc := .locking s.conns.length k }
  | acceptIdle {s socket} : s.pc = .accepting → s.upgrade = none →
      Step decode s (.accept socket) { s with conns := s.conns ++ [socket], pc := .hello s.conns.length }
  | guarded {s c k t cookie} : s.pc = .locking c k → s.tests[k]? = some t → t.locked = false →
      t.state = .createStreams cookie →
      Step decode s .lock { s with tests := s.tests.set k { t with locked := true }, pc := .helloData c k cookie }
  | busy {s c k t} : s.pc = .locking c k → s.tests[k]? = some t → t.locked = false →
      (∀ cookie, t.state ≠ .createStreams cookie) → Step decode s .lock { s with pc := .denying c none }
  | matched {s c k cookie socket rest} : s.pc = .helloData c k cookie → s.conns[c]? = some socket →
      readCookie decode socket = .ok cookie rest → Step decode s .read { s with pc := .welcomeData c k }
  | foreign {s c k cookie other socket rest} : s.pc = .helloData c k cookie → s.conns[c]? = some socket →
      readCookie decode socket = .ok other rest → other ≠ cookie →
      Step decode s .read { s with pc := .denying c (some k) }
  | malformed {s c k cookie socket} : s.pc = .helloData c k cookie → s.conns[c]? = some socket →
      readCookie decode socket ≠ .pending → (∀ other rest, readCookie decode socket ≠ .ok other rest) →
      Step decode s .read (s.fail k)
  | welcomed {s c k} : s.pc = .welcomeData c k →
      Step decode s (.write true)
        { s with answers := s.answers ++ [(c, .serverMessage .welcome)], pc := .handing c k }
  | unwelcomed {s c k} : s.pc = .welcomeData c k → Step decode s (.write false) (s.fail k)
  | handed {s u c k} : s.pc = .handing c k → s.handOver c = some u →
      Step decode s .send { u.release k with pc := .accepting }
  | refused {s c k} : s.pc = .handing c k → s.handOver c = none → Step decode s .send (s.fail k)
  | denied {s c ok} : s.pc = .denying c none →
      Step decode s (.write ok)
        { s with answers := if ok then s.answers ++ [(c, accessDenied)] else s.answers, pc := .accepting }
  | deniedHeld {s c k ok} : s.pc = .denying c (some k) →
      Step decode s (.write ok)
        { s.release k with answers := if ok then s.answers ++ [(c, accessDenied)] else s.answers, pc := .accepting }
  | named {s c cookie socket rest} : s.pc = .hello c → s.conns[c]? = some socket →
      readCookie decode socket = .ok cookie rest → Step decode s .read { s with pc := .welcome c cookie rest }
  | unnamed {s c socket e rest} : s.pc = .hello c → s.conns[c]? = some socket →
      readCookie decode socket = .err e rest → Step decode s .read { s with pc := .accepting }
  | invited {s c cookie socket} : s.pc = .welcome c cookie socket →
      Step decode s (.write true)
        { s with answers := s.answers ++ [(c, .serverMessage .welcome)], pc := .params c cookie socket }
  | uninvited {s c cookie socket} : s.pc = .welcome c cookie socket →
      Step decode s (.write false) { s with pc := .accepting }
  | created {s c cookie socket params rest} : s.pc = .params c cookie socket →
      readTestParameters decode socket = .ok params rest →
      Step decode s .read { s with
        tests := s.tests ++ [ServerTest.new cookie params]
        inFlight := some s.tests.length
        channel := some s.tests.length
        pc := .accepting }
  | uncreated {s c cookie socket e rest} : s.pc = .params c cookie socket →
      readTestParameters decode socket = .err e rest → Step decode s .read { s with pc := .accepting }
  | timedOut {s c cookie socket} : s.pc = .params c cookie socket →
      Step decode s .timeout { s with pc := .accepting }
  | test {s k e t u} : s.pc ≠ .returned → e.ofAcceptLoop = false → s.tests[k]? = some t → t.step e = some u →
      Step decode s (.test k e) { s with tests := s.tests.set k u }

variable {decode : List UInt8 → Option ClientEnvelope}

theorem read_cases {s u : Server} (h : s.step decode .read = some u) : Step decode s .read u := by
  simp only [step] at h
  split at h
  · rename_i c k cookie hpc
    split at h
    · cases h
    rename_i socket hconn
    split at h
    · rename_i clientCookie rest hread
      split at h
      · rename_i heq
        subst heq
        exact Option.some.inj h ▸ .matched hpc hconn hread
      · rename_i hne
        exact Option.some.inj h ▸ .foreign hpc hconn hread hne
    · cases h
    · rename_i hok hpend
      exact Option.some.inj h ▸ .malformed hpc hconn hpend hok
  · rename_i c hpc
    split at h
    · cases h
    rename_i socket hconn
    split at h
    · rename_i hread
      exact Option.some.inj h ▸ .named hpc hconn hread
    · rename_i hread
      exact Option.some.inj h ▸ .unnamed hpc hconn hread
    · cases h
    · rename_i hread
      exact absurd (readCookie_settles decode socket) (by simp [hread, Read.Settles])
  · rename_i c cookie socket hpc
    split at h
    · rename_i hread
      exact Option.some.inj h ▸ .created hpc hread
    · rename_i hread
      exact Option.some.inj h ▸ .uncreated hpc hread
    · cases h
    · rename_i hread
      exact absurd (readTestParameters_settles decode socket) (by simp [hread, Read.Settles])
  · cases h

/-- An enabled event is one of the transitions. -/
theorem step_cases {s u : Server} {e : NetEvent} (h : s.step decode e = some u) : Step decode s e u := by
  cases e with
  | read => exact read_cases h
  | accept socket =>
    simp only [step] at h
    split at h
    · rename_i hpc
      split at h
      · rename_i k hk
        exact Option.some.inj h ▸ .accept hpc hk
      · rename_i hk
        exact Option.some.inj h ▸ .acceptIdle hpc hk
    · cases h
  | lock =>
    simp only [step] at h
    split at h
    · rename_i c k hpc
      split at h
      · cases h
      rename_i t ht
      split at h
      · cases h
      rename_i hl
      have hl : t.locked = false := by simpa using hl
      split at h
      · rename_i cookie hs
        exact Option.some.inj h ▸ .guarded hpc ht hl hs
      · rename_i hs
        exact Option.some.inj h ▸ .busy hpc ht hl (fun cookie => hs cookie)
    · cases h
  | write ok =>
    simp only [step] at h
    split at h
    · rename_i c k hpc
      cases ok with
      | true => exact Option.some.inj h ▸ .welcomed hpc
      | false => exact Option.some.inj h ▸ .unwelcomed hpc
    · rename_i c held hpc
      cases held with
      | none => exact Option.some.inj h ▸ .denied hpc
      | some k => exact Option.some.inj h ▸ .deniedHeld hpc
    · rename_i c cookie socket hpc
      cases ok with
      | true => exact Option.some.inj h ▸ .invited hpc
      | false => exact Option.some.inj h ▸ .uninvited hpc
    · cases h
  | send =>
    simp only [step] at h
    split at h
    · rename_i c k hpc
      split at h
      · rename_i u hu
        exact Option.some.inj h ▸ .handed hpc hu
      · rename_i hu
        exact Option.some.inj h ▸ .refused hpc hu
    · cases h
  | timeout =>
    simp only [step] at h
    split at h
    · rename_i hpc
      exact Option.some.inj h ▸ .timedOut hpc
    · cases h
  | test k e =>
    simp only [step, Option.ite_none_left_eq_some, Option.map_eq_some_iff, Option.bind_eq_some_iff, not_or] at h
    obtain ⟨⟨hpc, he⟩, u, ⟨t, ht, hs⟩, rfl⟩ := h
    exact .test hpc (by simpa using he) ht hs

end Server

end Netperf
