import NetworkLabs.Sponge.Network.Close
import NetworkLabs.Sponge.TCPSpongeSocket.Loop

/-!
# Two sockets and a network

Two hosts run a socket each, over adapters of one kind, and the network between them may
drop, duplicate, delay and reorder the datagrams. A run of the hosts is a run of the two
connections, so what is known about these is known about the bytes that the owners of the
sockets write and read.
-/

namespace NetworkLabs

open TCPSpongeSocket
open Halting (Ends)

namespace Network

variable {cfg : Side → TCPConfig} {n : Network}

/-- The network gets into the state by what may happen to it. -/
def Reachable (cfg : Side → TCPConfig) (n : Network) : Prop :=
  ∃ actions, Transition.Along step Permitted (start cfg) actions ∧ run cfg actions = n

theorem allowed_iff (n : Network) (x : Side) (a : TCPConnection.Action) :
    Endpoint.Allowed (n x.other).conn.segmentsOut (n x) a ↔ Permitted n (x, a) := by
  cases a with
  | segmentReceived seg => exact Iff.rfl
  | write data => exact Iff.rfl
  | connect => exact Iff.rfl
  | endInputStream => exact Iff.rfl
  | read len => exact Iff.rfl
  | tick ms => exact Iff.rfl

/-- What one endpoint may do is a run of the network in which the other one does nothing. -/
theorem along_of_reaches {x : Side} {e : Endpoint}
    (h : Endpoint.Reaches (n x.other).conn.segmentsOut (n x) e) :
    ∃ actions, Transition.Along step Permitted n actions ∧
      actions.foldl step n = Function.update n x e := by
  obtain ⟨actions, hallowed, rfl⟩ := h
  induction actions generalizing n with
  | nil => exact ⟨[], trivial, (Function.update_eq_self x n).symm⟩
  | cons a actions ih =>
      have hrest : Transition.Along Endpoint.step
          (Endpoint.Allowed ((n.step (x, a)) x.other).conn.segmentsOut) ((n.step (x, a)) x)
          actions := by
        rw [step_self, step_other]
        exact hallowed.2
      obtain ⟨events, hpermitted, hfold⟩ := ih hrest
      refine ⟨(x, a) :: events, ⟨(allowed_iff n x a).mp hallowed.1, hpermitted⟩, ?_⟩
      rw [List.foldl_cons, hfold, step_self]
      exact Function.update_idem _ _ n

theorem Reachable.update (h : Reachable cfg n) {x : Side} {e : Endpoint}
    (he : Endpoint.Reaches (n x.other).conn.segmentsOut (n x) e) :
    Reachable cfg (Function.update n x e) := by
  obtain ⟨actions, hpermitted, rfl⟩ := h
  obtain ⟨more, hmore, hfold⟩ := along_of_reaches he
  refine ⟨actions ++ more, (Transition.along_append _ _ _).mpr ⟨hpermitted, hmore⟩, ?_⟩
  rw [run, List.foldl_append]
  exact hfold

/-- The numbers of a connection do not wrap around before its FIN is acknowledged. -/
def Unwrapped (cfg : Side → TCPConfig) (n : Network) : Prop :=
  ∀ x, (cfg x).isn.rawValue.toNat + (n x).accepted.length + 2 < 2 ^ 32

/-- A segment without ACK carries the number `0`, which is not behind a FIN. -/
theorem not_mistakenFinAck (h : Safe cfg n) (hsendable : ∀ x, (n x).conn.SendsSendable)
    {e : Side × TCPConnection.Action} (he : Permitted n e) (hunwrapped : Unwrapped cfg n) :
    ¬ MistakenFinAck n e := by
  obtain ⟨x, a⟩ := e
  cases a with
  | segmentReceived seg =>
      rintro ⟨-, -, hack, -, -, hnext, hackno, -⟩
      have hzero := ((hsendable x.other).queued seg he).ackno_eq hack
      have hlen := (h.outbound x).bytesWritten_eq
      have hisn := (h.outbound x).isn_eq
      rw [hzero, TCPSender.nextSeqno, hnext, hlen, hisn, wrap, WrappingInt32.mk.injEq,
        ← UInt32.toNat_inj, UInt32.toNat_add, UInt32.toNat_ofNat'] at hackno
      have hx := hunwrapped x
      change 0 = _ at hackno
      omega
  | write data => exact id
  | connect => exact id
  | endInputStream => exact id
  | read len => exact id
  | tick ms => exact id

theorem sendsSendable_run (cfg : Side → TCPConfig) (events : List (Side × TCPConnection.Action))
    (x : Side) : (run cfg events x).conn.SendsSendable := by
  induction events using List.reverseRecOn with
  | nil => exact TCPConnection.SendsSendable.start (cfg x)
  | append_singleton events e ih =>
      rw [run, List.foldl_concat]
      obtain ⟨y, a⟩ := e
      by_cases hxy : x = y
      · subst hxy
        rw [step_self]
        exact ih.step a
      · rw [step, Function.update_of_ne hxy]
        exact ih

/-- As long as no number wraps around, a connection closes cleanly only on both sides. -/
theorem Reachable.closes (h : Reachable cfg n) (hbounded : Bounded cfg n)
    (hunwrapped : Unwrapped cfg n) : Closes cfg n := by
  obtain ⟨actions, hpermitted, rfl⟩ := h
  apply closes_run cfg actions hpermitted _ hbounded
  induction actions using List.reverseRecOn with
  | nil => trivial
  | append_singleton actions a ih =>
      rw [Transition.along_concat] at hpermitted ⊢
      rw [run, List.foldl_concat] at hbounded hunwrapped
      have hbefore : Unwrapped cfg (run cfg actions) := by
        intro x
        have hx := hunwrapped x
        have hle := ((run cfg actions).accepted_prefix_step a x).length_le
        change _ + ((run cfg actions).step a x).accepted.length + 2 < _ at hx
        omega
      have hsafe := safe_run cfg actions hpermitted.1 hbounded.of_step
      exact ⟨ih hpermitted.1 hbounded.of_step hbefore,
        not_mistakenFinAck hsafe (sendsSendable_run cfg actions) hpermitted.2 hbefore⟩

end Network

/-- The two hosts. -/
abbrev Hosts (AdaptT Dout : Type) := Side → Host AdaptT Dout

namespace Hosts

variable {AdaptT Din Dout : Type}

def start (cfg : Side → TCPConfig) (adapter : Side → AdaptT) (fdNum : Side → ℕ) :
    Hosts AdaptT Dout :=
  fun x => Host.start (cfg x) (adapter x) (fdNum x)

/-- An event of one host. Nothing happens any more when something was thrown. -/
def step (ad : FdAdapter AdaptT Din Dout) (hosts : Except Failure (Hosts AdaptT Dout))
    (ev : Side × Host.Event Din) : Except Failure (Hosts AdaptT Dout) := do
  let hosts ← hosts
  let h ← (hosts ev.1).step ad ev.2
  return Function.update hosts ev.1 h

/-- A datagram that a host reads was written by the other one. -/
def Permitted (ad : FdAdapter AdaptT Din Dout) (carries : Dout → Din → Prop)
    (hang : RuleName → Prop) (hosts : Except Failure (Hosts AdaptT Dout))
    (ev : Side × Host.Event Din) : Prop :=
  match hosts with
  | .ok hosts =>
      (hosts ev.1).Possible ad carries hang (hosts ev.1.other).socket.datagrams ev.2
  | .error _ => True

instance (ad : FdAdapter AdaptT Din Dout) (carries : Dout → Din → Prop)
    [∀ dout din, Decidable (carries dout din)] (hang : RuleName → Prop) [DecidablePred hang]
    (hosts : Except Failure (Hosts AdaptT Dout)) (ev : Side × Host.Event Din) :
    Decidable (Permitted ad carries hang hosts ev) :=
  match hosts with
  | .ok hosts => inferInstanceAs (Decidable ((hosts ev.1).Possible ad carries hang
      (hosts ev.1.other).socket.datagrams ev.2))
  | .error _ => isTrue trivial

/-- Each socket follows its endpoint of the network. -/
structure Follow (ad : FdAdapter AdaptT Din Dout) (hang : RuleName → Prop)
    (cfg : Side → TCPConfig) (hosts : Hosts AdaptT Dout) (n : Network) : Prop where
  reachable : n.Reachable cfg
  follows : ∀ x, Follows ad hang (hosts x).socket (n x)
  nodup : ∀ x, (hosts x).rules.Nodup

/-- What a socket has in common with the connection that it drives: the streams, but for what
is in the pipes, and the segments. -/
structure Carries (ad : FdAdapter AdaptT Din Dout) (s : TCPSpongeSocket AdaptT Dout)
    (e : Endpoint) : Prop where
  conn_eq : e.conn = s.tcp
  accepted_eq : e.accepted ++ s.outboundPipe.content = s.ownerWritten
  consumed_eq : s.ownerRead ++ s.inboundPipe.content = e.consumed
  sent : Sent ad (s.tcp.segmentsOut.take s.popped) s.datagrams

/-- Each direction carries fewer bytes than `2 ^ 31` minus the capacities of the buffers it
passes. -/
def Bounded (cfg : Side → TCPConfig) (hosts : Hosts AdaptT Dout) : Prop :=
  ∀ x, (hosts x).socket.ownerWritten.length + (cfg x).sendCapacity < 2 ^ 31 ∧
    (hosts x).socket.ownerWritten.length + (cfg x.other).recvCapacity < 2 ^ 31

/-- No sequence number wraps around. -/
def Unwrapped (cfg : Side → TCPConfig) (hosts : Hosts AdaptT Dout) : Prop :=
  ∀ x, (cfg x).isn.rawValue.toNat + (hosts x).socket.ownerWritten.length + 2 < 2 ^ 32

/-! ## One byte over UDP -/

def udpAddress : Side → Address
  | .a => ⟨1, 11⟩
  | .b => ⟨2, 22⟩

def udpConfig : Side → TCPConfig
  | .a => { recvCapacity := 4, sendCapacity := 4, isn := ⟨7⟩ }
  | .b => { recvCapacity := 4, sendCapacity := 4, isn := ⟨90⟩ }

def udpAdapter (x : Side) : TCPOverUDPSocketAdapter where
  config := ⟨udpAddress x, udpAddress x.other⟩
  sock := { fdNum := 4 }

/-- A round of the loop of `x`: what `poll` finds, and the payload of the datagram that is
read, if there is one. -/
def udpLoop (x : Side) (revents : List UInt16) (payload : List UInt8) :
    Side × Host.Event (Address × List UInt8) :=
  (x, .loop (.ready revents) {
    datagram := if payload = [] then .error LocalStream.EAGAIN
      else .ok (udpAddress x.other, payload)
    outbound := .ok 9
    inbound := .ok 9 } 0)

def udpEvents : List (Side × Host.Event (Address × List UInt8)) := [
  (.a, .connect),
  udpLoop .a [0, 0, 0, 4] [],
  udpLoop .b [1, 0, 0, 0] [0, 11, 0, 22, 0, 0, 0, 7, 0, 0, 0, 0, 80, 2, 0, 0, 175, 213, 0, 0],
  udpLoop .b [0, 0, 0, 4] [],
  (.a, .ownerWrite [5]),
  (.a, .ownerShutdown),
  udpLoop .a [1, 1, 0, 0]
    [0, 22, 0, 11, 0, 0, 0, 90, 0, 0, 0, 8, 80, 18, 0, 4, 175, 102, 0, 0],
  udpLoop .a [0, 1, 0, 4] [],
  udpLoop .b [1, 0, 0, 0]
    [0, 11, 0, 22, 0, 0, 0, 8, 0, 0, 0, 91, 80, 16, 0, 4, 170, 103, 0, 0, 5],
  udpLoop .b [1, 0, 0, 0] [0, 11, 0, 22, 0, 0, 0, 8, 0, 0, 0, 91, 80, 16, 0, 4, 175, 103, 0, 0],
  udpLoop .b [1, 0, 0, 0] [0, 11, 0, 22, 0, 0, 0, 9, 0, 0, 0, 91, 80, 17, 0, 4, 175, 101, 0, 0],
  (.b, .ownerShutdown),
  udpLoop .b [0, 1, 4, 4] [],
  udpLoop .a [1, 0, 0] [0, 22, 0, 11, 0, 0, 0, 91, 0, 0, 0, 10, 80, 17, 0, 3, 175, 101, 0, 0],
  udpLoop .a [0, 0, 4] [],
  udpLoop .b [1, 0, 0] [0, 11, 0, 22, 0, 0, 0, 10, 0, 0, 0, 92, 80, 16, 0, 4, 175, 100, 0, 0]]

/-- The hosts after these events. -/
def udpHosts : Hosts TCPOverUDPSocketAdapter (Address × List UInt8) :=
  match udpEvents.foldl (step TCPOverUDPSocketAdapter.fdAdapter)
    (.ok (start udpConfig udpAdapter fun _ => 3)) with
  | .ok hosts => hosts
  | .error _ => start udpConfig udpAdapter fun _ => 3

theorem foldl_udpEvents : udpEvents.foldl (step TCPOverUDPSocketAdapter.fdAdapter)
    (.ok (start udpConfig udpAdapter fun _ => 3)) = .ok udpHosts := by
  have hok : (udpEvents.foldl (step TCPOverUDPSocketAdapter.fdAdapter)
      (.ok (start udpConfig udpAdapter fun _ => 3))).isOk = true := by decide +kernel
  rw [udpHosts]
  cases hrun : udpEvents.foldl (step TCPOverUDPSocketAdapter.fdAdapter)
      (.ok (start udpConfig udpAdapter fun _ => 3)) with
  | error e =>
      rw [hrun] at hok
      exact nomatch hok
  | ok hosts => rfl

/-- The host `b` behind its last round. -/
def udpLast : Host TCPOverUDPSocketAdapter (Address × List UInt8) :=
  match (udpHosts .b).tcpLoop TCPOverUDPSocketAdapter.fdAdapter (.ready [])
    { datagram := .error LocalStream.EAGAIN } 0 with
  | .ok (_, host) => host
  | .error _ => udpHosts .b

/-- The event loop of `b` exits. -/
theorem tcpLoop_udpHosts : (udpHosts .b).tcpLoop TCPOverUDPSocketAdapter.fdAdapter (.ready [])
    { datagram := .error LocalStream.EAGAIN } 0 = .ok (.exit, udpLast) := by
  have hexit : ((udpHosts .b).tcpLoop TCPOverUDPSocketAdapter.fdAdapter (.ready [])
      { datagram := .error LocalStream.EAGAIN } 0).toOption.map Prod.fst = some .exit := by
    decide +kernel
  rw [udpLast]
  cases hloop : (udpHosts .b).tcpLoop TCPOverUDPSocketAdapter.fdAdapter (.ready [])
      { datagram := .error LocalStream.EAGAIN } 0 with
  | error e =>
      rw [hloop] at hexit
      exact nomatch hexit
  | ok r =>
      obtain ⟨ret, host⟩ := r
      rw [hloop] at hexit
      obtain rfl : ret = .exit := Option.some.inj hexit
      rfl

/-! ## Runs -/

section

variable {ad : FdAdapter AdaptT Din Dout} {carries : Dout → Din → Prop} {hang : RuleName → Prop}
  {cfg : Side → TCPConfig} {hosts : Hosts AdaptT Dout} {n : Network}

theorem follow_start (ad : FdAdapter AdaptT Din Dout) (hang : RuleName → Prop)
    (cfg : Side → TCPConfig) (adapter : Side → AdaptT) (fdNum : Side → ℕ) :
    Follow ad hang cfg (start cfg adapter fdNum) (Network.start cfg) where
  reachable := ⟨[], trivial, rfl⟩
  follows x := Follows.start ad hang (cfg x) (adapter x) (fdNum x)
  nodup _ := (by decide : ruleNames.Nodup)

theorem Follow.update (h : Follow ad hang cfg hosts n) {x : Side} {host : Host AdaptT Dout}
    (hdrives : Drives ad hang (n x.other).conn.segmentsOut (n x) host.socket)
    (hsub : host.rules.Sublist (hosts x).rules) :
    ∃ n', Follow ad hang cfg (Function.update hosts x host) n' ∧ n' x.other = n x.other := by
  obtain ⟨e, hreach, he⟩ := hdrives
  refine ⟨Function.update n x e, ⟨h.reachable.update hreach, fun y => ?_, fun y => ?_⟩,
    Function.update_of_ne x.other_ne _ _⟩
  · by_cases hyx : y = x
    · subst hyx
      rw [Function.update_self, Function.update_self]
      exact he
    · rw [Function.update_of_ne hyx, Function.update_of_ne hyx]
      exact h.follows y
  · by_cases hyx : y = x
    · subst hyx
      rw [Function.update_self]
      exact hsub.nodup (h.nodup y)
    · rw [Function.update_of_ne hyx]
      exact h.nodup y

theorem Follow.step (had : ad.Faithful carries) (h : Follow ad hang cfg hosts n)
    {ev : Side × Host.Event Din} (hev : Permitted ad carries hang (.ok hosts) ev) :
    Ends Failure.Foreign (fun hosts' => ∃ n', Follow ad hang cfg hosts' n')
      (step ad (.ok hosts) ev) := by
  apply (Host.drives_step had (h.follows ev.1) (h.follows ev.1.other) (h.nodup ev.1) hev).bind
  rintro host ⟨hdrives, hsub⟩
  obtain ⟨n', hn', -⟩ := h.update hdrives hsub
  exact ⟨n', hn'⟩

/-- In every run the sockets follow two connections. -/
theorem follow_run (had : ad.Faithful carries) (cfg : Side → TCPConfig) (adapter : Side → AdaptT)
    (fdNum : Side → ℕ) (events : List (Side × Host.Event Din))
    (hpermitted : Transition.Along (step ad) (Permitted ad carries hang)
      (.ok (start cfg adapter fdNum)) events) :
    Ends Failure.Foreign (fun hosts => ∃ n, Follow ad hang cfg hosts n)
      (events.foldl (step ad) (.ok (start cfg adapter fdNum))) := by
  apply hpermitted.invariant (Ends Failure.Foreign fun hosts => ∃ n, Follow ad hang cfg hosts n)
  · intro hosts ev hhosts hev
    cases hosts with
    | error e => exact hhosts
    | ok hosts =>
        obtain ⟨n, hn⟩ := hhosts
        exact hn.step had hev
  · exact ⟨_, follow_start ad hang cfg adapter fdNum⟩

/-- Whatever the owners, the kernels and the network do, a run of the hosts is a run of the
two connections, with what lies in the pipes in front of them and behind them. Only other code
throws: no connection accepts less than it is handed, and no rule is found to wait busily. -/
theorem ends_run (had : ad.Faithful carries) (hang : RuleName → Prop) (cfg : Side → TCPConfig)
    (adapter : Side → AdaptT) (fdNum : Side → ℕ) (events : List (Side × Host.Event Din))
    (hpermitted : Transition.Along (step ad) (Permitted ad carries hang)
      (.ok (start cfg adapter fdNum)) events) :
    Ends Failure.Foreign (fun hosts => ∃ n : Network, n.Reachable cfg ∧
        ∀ x, Carries ad (hosts x).socket (n x))
      (events.foldl (step ad) (.ok (start cfg adapter fdNum))) := by
  apply (follow_run had cfg adapter fdNum events hpermitted).mono fun _ he => he
  rintro hosts ⟨n, hn⟩
  refine ⟨n, hn.reachable, fun x => ?_⟩
  have hx := hn.follows x
  exact ⟨hx.conn_eq, hx.accepted_eq, hx.consumed_eq, hx.sent⟩

theorem ends_run_udp : Ends Failure.Foreign
    (fun hosts => ∃ n : Network, n.Reachable udpConfig ∧
      ∀ x, Carries TCPOverUDPSocketAdapter.fdAdapter (hosts x).socket (n x))
    (udpEvents.foldl (step TCPOverUDPSocketAdapter.fdAdapter)
      (.ok (start udpConfig udpAdapter fun _ => 3))) :=
  ends_run TCPOverUDPSocketAdapter.faithful (fun _ => False) udpConfig udpAdapter _ udpEvents
    (by decide +kernel)

theorem Follow.length_accepted_le (h : Follow ad hang cfg hosts n) (x : Side) :
    (n x).accepted.length ≤ (hosts x).socket.ownerWritten.length := by
  rw [← (h.follows x).accepted_eq, List.length_append]
  exact Nat.le_add_right _ _

theorem Follow.bounded (h : Follow ad hang cfg hosts n) (hbounded : Bounded cfg hosts) :
    n.Bounded cfg := by
  intro x
  have hx := hbounded x
  have hle := h.length_accepted_le x
  omega

theorem Follow.unwrapped (h : Follow ad hang cfg hosts n) (hunwrapped : Unwrapped cfg hosts) :
    n.Unwrapped cfg := by
  intro x
  have hx := hunwrapped x
  have hle := h.length_accepted_le x
  omega

theorem Follow.safe (h : Follow ad hang cfg hosts n) (hbounded : Bounded cfg hosts) :
    n.Safe cfg := by
  have hn := h.bounded hbounded
  obtain ⟨actions, hpermitted, rfl⟩ := h.reachable
  exact Network.safe_run cfg actions hpermitted hn

/-- The stream that a connection has ended is all that its owner has written, and the owner
has ended it. -/
theorem Follow.accepted_of_ended (h : Follow ad hang cfg hosts n) (hhang : ¬ hang .dataIn)
    {x : Side} (hended : (n x).ended = true) :
    (n x).accepted = (hosts x).socket.ownerWritten ∧ (hosts x).socket.outboundPipe.shut = true := by
  obtain ⟨hcontent, hshut⟩ := (h.follows x).drained ((h.follows x).eof_of_ended hhang hended)
  have haccepted := (h.follows x).accepted_eq
  rw [hcontent, List.append_nil] at haccepted
  exact ⟨haccepted, hshut⟩

/-- What has been passed on from a stream that is at its end is the whole stream. -/
theorem Follow.consumed_of_eof (h : Follow ad hang cfg hosts n) (hbounded : Bounded cfg hosts)
    (hhang : ¬ hang .dataIn) {x : Side}
    (heof : (hosts x).socket.tcp.inboundStream.eof = true) :
    (hosts x).socket.ownerRead ++ (hosts x).socket.inboundPipe.content =
        (hosts x.other).socket.ownerWritten ∧
      (hosts x.other).socket.outboundPipe.shut = true := by
  rw [← (h.follows x).conn_eq, ByteStream.eof, Bool.and_eq_true, ByteStream.bufferEmpty,
    beq_iff_eq] at heof
  obtain ⟨hended, hall⟩ := ((h.safe hbounded).inbound x).delivers.2 heof.1
  obtain ⟨haccepted, hshut⟩ := h.accepted_of_ended hhang hended
  refine ⟨?_, hshut⟩
  rw [(h.follows x).consumed_eq, ← haccepted, ← hall, heof.2]
  have hlen := (n x).conn.inboundStream.length_peekOutput_le 0 (by decide)
  rw [List.eq_nil_of_length_eq_zero (Nat.le_zero.mp hlen), List.append_nil]

/-- What the owner of a socket is handed is a prefix of what the other owner wrote. When
its stream ends, and not because of an error, nothing is missing and the other owner has
ended its stream. -/
theorem run_owners_safe (had : ad.Faithful carries) (hang : RuleName → Prop)
    (cfg : Side → TCPConfig) (adapter : Side → AdaptT) (fdNum : Side → ℕ)
    (events : List (Side × Host.Event Din))
    (hpermitted : Transition.Along (step ad) (Permitted ad carries hang)
      (.ok (start cfg adapter fdNum)) events)
    (hrun : events.foldl (step ad) (.ok (start cfg adapter fdNum)) = .ok hosts)
    (hbounded : Bounded cfg hosts) (x : Side) :
    let s := (hosts x).socket
    let peer := (hosts x.other).socket
    s.ownerRead ++ s.inboundPipe.content <+: peer.ownerWritten ∧
      (s.inboundPipe.shut = true → s.tcp.inboundStream.error = false → ¬ hang .dataIn →
        s.ownerRead ++ s.inboundPipe.content = peer.ownerWritten ∧
          peer.outboundPipe.shut = true) := by
  have hends := follow_run had cfg adapter fdNum events hpermitted
  rw [hrun] at hends
  obtain ⟨n, hn⟩ := hends
  have hprefix := ((hn.safe hbounded).inbound x).delivers.1
  refine ⟨?_, fun hshut herror hhang => ?_⟩
  · rw [(hn.follows x).consumed_eq, ← (hn.follows x.other).accepted_eq]
    exact ((List.prefix_append _ _).trans hprefix).trans (List.prefix_append _ _)
  · have hfinished := (hn.follows x).finished ((hn.follows x).shut_eq ▸ hshut)
    rw [TCPConnection.inboundFinished, herror, Bool.or_false] at hfinished
    exact hn.consumed_of_eof hbounded hhang hfinished

theorem run_owners_safe_udp :
    (udpHosts .b).socket.ownerRead ++ (udpHosts .b).socket.inboundPipe.content =
        (udpHosts .a).socket.ownerWritten ∧
      (udpHosts .a).socket.outboundPipe.shut = true := by
  have hbounded : Bounded udpConfig udpHosts := by
    intro x
    cases x
    · decide +kernel
    · decide +kernel
  exact (run_owners_safe TCPOverUDPSocketAdapter.faithful (fun _ => False) udpConfig
    udpAdapter _ udpEvents (by decide +kernel) foldl_udpEvents hbounded .b).2 (by decide +kernel)
    (by decide +kernel) id

/-- A connection that has ended without an error, and whose input has been passed on. -/
theorem Follow.complete (h : Follow ad hang cfg hosts n) (hbounded : Bounded cfg hosts)
    (hunwrapped : Unwrapped cfg hosts) (hhang : ¬ hang .dataIn) {x : Side}
    (hactive : (hosts x).socket.tcp.active = false)
    (herror : (hosts x).socket.tcp.sender.stream.error = false)
    (hempty : (hosts x).socket.tcp.inboundStream.bufferEmpty = true) :
    (hosts x).socket.tcp.inboundStream.eof = true ∧
      (hosts x.other).socket.ownerRead ++ (hosts x.other).socket.inboundPipe.content ++
          (hosts x.other).socket.tcp.inboundStream.peekOutput
            (hosts x.other).socket.tcp.inboundStream.bufferSize = (hosts x).socket.ownerWritten ∧
      (hosts x.other).socket.tcp.inboundStream.inputEnded = true ∧
      (hosts x).socket.outboundPipe.shut = true := by
  have hcloses := h.reachable.closes (h.bounded hbounded) (h.unwrapped hunwrapped)
  have hx := (h.follows x).conn_eq
  have hother := (h.follows x.other).conn_eq
  rw [← hx] at hactive herror hempty
  rcases (hcloses.closing x).closed hactive with herr | ⟨hown, hpeer⟩
  · exact absurd (herr.symm.trans herror) (by decide)
  · have hdelivers := (hcloses.safe.inbound x.other).delivers.2 hpeer
    rw [Side.other_other] at hdelivers
    obtain ⟨haccepted, hshut⟩ := h.accepted_of_ended hhang hdelivers.1
    refine ⟨?_, ?_, ?_, hshut⟩
    · rw [← hx, ByteStream.eof, Bool.and_eq_true]
      exact ⟨hown, hempty⟩
    · rw [(h.follows x.other).consumed_eq, ← haccepted, ← hdelivers.2, ← hother]
    · rw [← hother]
      exact hpeer

/-- When the loop of a host exits by itself, and not because of an error of its streams,
everything that the other owner wrote has been handed to its owner, and everything that its
owner wrote has arrived at the other host. -/
theorem run_owners_complete (had : ad.Faithful carries) (hang : RuleName → Prop)
    (cfg : Side → TCPConfig) (adapter : Side → AdaptT) (fdNum : Side → ℕ)
    (events : List (Side × Host.Event Din))
    (hpermitted : Transition.Along (step ad) (Permitted ad carries hang)
      (.ok (start cfg adapter fdNum)) events)
    (hrun : events.foldl (step ad) (.ok (start cfg adapter fdNum)) = .ok hosts)
    (x : Side) {poll : EventLoop.PollAnswer} {answers : TCPSpongeSocket.Answers Din} {ms : ℕ}
    (hlast : Permitted ad carries hang (.ok hosts) (x, .loop poll answers ms))
    {host : Host AdaptT Dout}
    (hexit : (hosts x).tcpLoop ad poll answers ms = .ok (.exit, host))
    (hpoll : poll ≠ .interrupted) (hrules : .datagramIn ∈ host.rules ∧ .dataOut ∈ host.rules)
    (herror : host.socket.tcp.sender.stream.error = false ∧
      host.socket.tcp.inboundStream.error = false)
    (hhang : ¬ hang .dataIn) (hbounded : Bounded cfg (Function.update hosts x host))
    (hunwrapped : Unwrapped cfg (Function.update hosts x host)) :
    let s := host.socket
    let peer := (hosts x.other).socket
    (s.ownerRead ++ s.inboundPipe.content = peer.ownerWritten ∧
      s.inboundPipe.shut = true ∧ peer.outboundPipe.shut = true) ∧
    peer.ownerRead ++ peer.inboundPipe.content ++
        peer.tcp.inboundStream.peekOutput peer.tcp.inboundStream.bufferSize = s.ownerWritten ∧
      peer.tcp.inboundStream.inputEnded = true ∧ s.outboundPipe.shut = true := by
  have hends := follow_run had cfg adapter fdNum events hpermitted
  rw [hrun] at hends
  obtain ⟨n, hn⟩ := hends
  have hloop := Host.drives_tcpLoop had (hn.follows x) (hn.follows x.other) (hn.nodup x) ms hlast
  rw [hexit] at hloop
  obtain ⟨hdrives, hsub, hwhy⟩ := hloop
  have harmed := (hwhy rfl).resolve_left hpoll
  obtain ⟨hempty, hshut⟩ := harmed .dataOut hrules.2 rfl
  obtain ⟨n', hn', -⟩ := hn.update hdrives hsub
  have hx : Function.update hosts x host x = host := Function.update_self x host hosts
  have hother : Function.update hosts x host x.other = hosts x.other :=
    Function.update_of_ne x.other_ne _ _
  have hcomplete := hn'.complete (x := x) hbounded hunwrapped hhang
  have hconsumed := hn'.consumed_of_eof (x := x) hbounded hhang
  have hshutEq := (hn'.follows x).shut_eq
  rw [hx, hother] at hcomplete hconsumed
  rw [hx] at hshutEq
  obtain ⟨heof, harrived⟩ := hcomplete (harmed .datagramIn hrules.1 rfl) herror.1 hempty
  obtain ⟨hread, hpeerShut⟩ := hconsumed heof
  refine ⟨⟨hread, ?_, hpeerShut⟩, harrived⟩
  apply hshutEq.trans
  apply hshut
  rw [TCPConnection.inboundFinished, heof]
  rfl

theorem run_owners_complete_udp :
    udpLast.socket.ownerRead ++ udpLast.socket.inboundPipe.content =
        (udpHosts .a).socket.ownerWritten ∧
      udpLast.socket.inboundPipe.shut = true ∧
      (udpHosts .a).socket.outboundPipe.shut = true := by
  have hbounded : Bounded udpConfig (Function.update udpHosts .b udpLast) := by
    intro x
    cases x
    · decide +kernel
    · decide +kernel
  have hunwrapped : Unwrapped udpConfig (Function.update udpHosts .b udpLast) := by
    intro x
    cases x
    · decide +kernel
    · decide +kernel
  exact (run_owners_complete TCPOverUDPSocketAdapter.faithful (fun _ => False) udpConfig
    udpAdapter _ udpEvents (by decide +kernel) foldl_udpEvents .b (by decide +kernel)
    tcpLoop_udpHosts (by decide) (by decide +kernel) (by decide +kernel) id hbounded
    hunwrapped).1

end

end Hosts

end NetworkLabs
