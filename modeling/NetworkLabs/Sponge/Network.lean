import NetworkLabs.Library.Transition
import NetworkLabs.Sponge.TCPConnection

/-!
# Two connections and a network

Two endpoints are joined by a network that may drop, duplicate, delay and
reorder segments: what an endpoint ever put into its queue may be delivered to
the other one at any later time, any number of times, or never. An event of the
network is an action of one side, and an incoming segment is one that the other
side has emitted.

Beside its connection an endpoint keeps what a run is judged by: the bytes its
application got accepted, the bytes its application was handed, and whether it
has ended its stream.
-/

namespace NetworkLabs

inductive Side where
  | a
  | b
  deriving DecidableEq

def Side.other : Side → Side
  | .a => .b
  | .b => .a

@[simp] theorem Side.other_other (x : Side) : x.other.other = x := by
  cases x
  · rfl
  · rfl

theorem Side.other_ne (x : Side) : x.other ≠ x := by
  cases x
  · exact fun h => nomatch h
  · exact fun h => nomatch h

theorem Side.eq_or_eq_other (x y : Side) : y = x ∨ y = x.other := by
  cases x
  · cases y
    · exact Or.inl rfl
    · exact Or.inr rfl
  · cases y
    · exact Or.inr rfl
    · exact Or.inl rfl

/-- A connection, with the history of its application. -/
structure Endpoint where
  conn : TCPConnection
  accepted : List UInt8
  consumed : List UInt8
  ended : Bool

namespace Endpoint

open TCPConnection

def start (cfg : TCPConfig) : Endpoint := ⟨TCPConnection.new cfg, [], [], false⟩

def step (e : Endpoint) (a : Action) : Endpoint where
  conn := e.conn.step a
  accepted :=
    match a with
    | .write data => e.accepted ++ data.take (e.conn.write data).2
    | _ => e.accepted
  consumed :=
    match a with
    | .read len => e.consumed ++ (e.conn.read len).2
    | _ => e.consumed
  ended :=
    match a with
    | .endInputStream => true
    | _ => e.ended

/-- What an application got accepted only grows. -/
theorem accepted_prefix_step (e : Endpoint) (a : Action) : e.accepted <+: (e.step a).accepted := by
  cases a with
  | write data => exact List.prefix_append _ _
  | connect => exact List.prefix_rfl
  | endInputStream => exact List.prefix_rfl
  | read len => exact List.prefix_rfl
  | tick ms => exact List.prefix_rfl
  | segmentReceived seg => exact List.prefix_rfl

/-- The bytes ever written to the inbound stream: those that were read,
followed by those that are buffered. -/
def written (e : Endpoint) : List UInt8 :=
  e.consumed ++ e.conn.inboundStream.peekOutput e.conn.inboundStream.bufferSize

end Endpoint

/-- The two endpoints. -/
abbrev Network := Side → Endpoint

namespace Network

def start (cfg : Side → TCPConfig) : Network := fun x => Endpoint.start (cfg x)

/-- An action of one side. -/
def step (n : Network) (e : Side × TCPConnection.Action) : Network :=
  Function.update n e.1 ((n e.1).step e.2)

def run (cfg : Side → TCPConfig) (events : List (Side × TCPConnection.Action)) : Network :=
  events.foldl step (start cfg)

/-- A segment that arrives was emitted by the other side, and an application
does not write after it has ended its stream. -/
def Permitted (n : Network) (e : Side × TCPConnection.Action) : Prop :=
  match e.2 with
  | .segmentReceived seg => seg ∈ (n e.1.other).conn.segmentsOut
  | .write _ => (n e.1).ended = false
  | _ => True

instance : DecidableRel Permitted := fun n e =>
  match e with
  | (x, .segmentReceived seg) =>
      inferInstanceAs (Decidable (seg ∈ (n x.other).conn.segmentsOut))
  | (x, .write _) => inferInstanceAs (Decidable ((n x).ended = false))
  | (_, .connect) => isTrue trivial
  | (_, .endInputStream) => isTrue trivial
  | (_, .read _) => isTrue trivial
  | (_, .tick _) => isTrue trivial

/-- Each direction carries fewer bytes than `2 ^ 31` minus the capacities of the
buffers it passes. -/
def Bounded (cfg : Side → TCPConfig) (n : Network) : Prop :=
  ∀ x, (n x).accepted.length + (cfg x).sendCapacity < 2 ^ 31 ∧
    (n x).accepted.length + (cfg x.other).recvCapacity < 2 ^ 31

@[simp] theorem step_self (n : Network) (x : Side) (a : TCPConnection.Action) :
    n.step (x, a) x = (n x).step a :=
  Function.update_self x _ n

@[simp] theorem step_other (n : Network) (x : Side) (a : TCPConnection.Action) :
    n.step (x, a) x.other = n x.other :=
  Function.update_of_ne x.other_ne _ n

theorem accepted_prefix_step (n : Network) (e : Side × TCPConnection.Action) (x : Side) :
    (n x).accepted <+: (n.step e x).accepted := by
  obtain ⟨y, a⟩ := e
  rcases y.eq_or_eq_other x with rfl | rfl
  · rw [step_self]
    exact (n x).accepted_prefix_step a
  · rw [step_other]

theorem Bounded.of_step {cfg : Side → TCPConfig} {n : Network}
    {e : Side × TCPConnection.Action} (h : Bounded cfg (n.step e)) : Bounded cfg n := by
  intro x
  have hle := (n.accepted_prefix_step e x).length_le
  have hx := h x
  omega

/-- The rule for invariants of permitted runs that stay within the bounds: the
bounds hold all along when they hold at the end. -/
theorem invariant {cfg : Side → TCPConfig} (inv : Network → Prop)
    {guard : Network → Side × TCPConnection.Action → Prop}
    (hstart : Bounded cfg (start cfg) → inv (start cfg))
    (hstep : ∀ n e, inv n → Permitted n e → guard n e → Bounded cfg (n.step e) →
      inv (n.step e))
    (events : List (Side × TCPConnection.Action))
    (hpermitted : Transition.Along step Permitted (start cfg) events)
    (hguard : Transition.Along step guard (start cfg) events)
    (hbounded : Bounded cfg (run cfg events)) : inv (run cfg events) := by
  induction events using List.reverseRecOn with
  | nil => exact hstart hbounded
  | append_singleton events e ih =>
      rw [Transition.along_concat] at hpermitted hguard
      rw [run, List.foldl_concat] at hbounded ⊢
      exact hstep _ e (ih hpermitted.1 hguard.1 hbounded.of_step) hpermitted.2 hguard.2
        hbounded

end Network

end NetworkLabs
