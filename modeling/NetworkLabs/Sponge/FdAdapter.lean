import NetworkLabs.Sponge.FileDescriptor
import NetworkLabs.Sponge.Wire.TCPOverIPv4

/-!
# The adapters of a socket

The template `TCPSpongeSocket` is instantiated with an adapter that turns segments into
datagrams and back: TCP in IP over a TUN device, TCP in UDP, or one of these two with
losses. `FdAdapter` is what the socket uses of its adapter. An adapter is faithful if what
it reads from a datagram that another one has written is the segment it was written for,
up to the ports and the checksum; all four are.
-/

namespace NetworkLabs

/-- What a call that writes gets from outside: the number that `_rand` would return, and
what the kernel answers, which takes a datagram as a whole. -/
structure WriteAnswer where
  rand : UInt16 := 0
  kernel : Answer Unit := .ok ()
  deriving DecidableEq

/-- What the template uses of `AdaptT`. Datagrams come in as `Din` and leave as `Dout`. A
call that reads is also handed the number that `_rand` would return. -/
structure FdAdapter (AdaptT Din Dout : Type) where
  fd : AdaptT → FileDescriptor
  read : AdaptT → UInt16 → Answer Din → Except Failure (Option TCPSegment × AdaptT)
  write : AdaptT → WriteAnswer → TCPSegment → Except Failure (Option Dout × AdaptT)

namespace TCPSegment

/-- The segment with other ports and another checksum. -/
def readdress (seg : TCPSegment) (sport dport cksum : UInt16) : TCPSegment :=
  { seg with header := { seg.header with sport := sport, dport := dport, cksum := cksum } }

/-- What the segments of a connection have in common: they fit into a datagram, and a number
is acknowledged by a segment with ACK only. -/
structure Sendable (seg : TCPSegment) : Prop where
  doff_eq : seg.header.doff = 5
  length_payload_le : seg.payload.length ≤ TCPConfig.MAX_PAYLOAD_SIZE
  ackno_eq : seg.header.ack = false → seg.header.ackno = ⟨0⟩

end TCPSegment

/-- What is thrown by the calls that the code of the socket makes into other code: neither
of the two exceptions that it throws itself about its own accounts. -/
def Failure.Foreign (e : Failure) : Prop :=
  e ≠ .runtimeError "TCPConnection::write() accepted less than advertised length" ∧
    e ≠ .runtimeError
      "EventLoop: busy wait detected: callback did not read/write fd and is still interested"

instance : DecidablePred Failure.Foreign := fun e =>
  inferInstanceAs (Decidable (e ≠ _ ∧ e ≠ _))

theorem Failure.foreign_unixError (attempt : String) (errno : ℕ) :
    (Failure.unixError attempt errno).Foreign := ⟨nofun, nofun⟩

/-- A call that does nothing more once the kernel has answered. -/
theorem foreign_systemCall_bind_pure {α : Type} {attempt : String} {answer : Answer Unit} {a : α}
    {e : Failure} (h : (systemCall attempt answer >>= fun _ => pure a) = .error e) : e.Foreign := by
  rw [Halting.bind_pure_eq_error_iff] at h
  obtain ⟨errno, -, rfl⟩ := systemCall_eq_error_iff.mp h
  exact Failure.foreign_unixError attempt errno

theorem eq_of_systemCall_bind_pure {α : Type} {attempt : String} {answer : Answer Unit} {a b : α}
    (h : (systemCall attempt answer >>= fun _ => pure a) = .ok b) : a = b := by
  obtain ⟨-, -, h⟩ := (Halting.bind_eq_ok_iff _ _ _).mp h
  cases h
  rfl

/-- A text that begins differently. -/
theorem Failure.foreign_of_head {what : String} {c : Char} (h : what.toList.head? = some c)
    (hc : c ≠ 'T' ∧ c ≠ 'E') : (Failure.runtimeError what).Foreign := by
  constructor
  · rintro ⟨rfl⟩
    exact hc.1 (Option.some.inj h).symm
  · rintro ⟨rfl⟩
    exact hc.2 (Option.some.inj h).symm

/-- `carries` says what can arrive of a datagram that was sent. -/
structure FdAdapter.Faithful {AdaptT Din Dout : Type} (ad : FdAdapter AdaptT Din Dout)
    (carries : Dout → Din → Prop) : Prop where
  brings : ∀ {a b a' b' i rand seg seg' dout din}, seg.Sendable →
    ad.write a i seg = .ok (some dout, a') → carries dout din →
    ad.read b rand (.ok din) = .ok (some seg', b') →
      ∃ sport dport cksum, seg' = seg.readdress sport dport cksum
  answered : ∀ {a rand answer r}, ad.read a rand answer = .ok r → ∃ din, answer = .ok din
  counts : ∀ {a a' rand answer r}, ad.read a rand answer = .ok (r, a') →
    (ad.fd a').readCount = (ad.fd a).readCount + 1
  foreign_read : ∀ {a rand answer e}, ad.read a rand answer = .error e → e.Foreign
  foreign_write : ∀ {a i seg e}, ad.write a i seg = .error e → e.Foreign

/-! ## TCP in IP over a TUN device -/

structure TCPOverIPv4OverTunFdAdapter where
  adapter : TCPOverIPv4Adapter
  tun : FileDescriptor
  deriving DecidableEq

namespace TCPOverIPv4OverTunFdAdapter

/-- The default limit of a read. -/
def SIZE_MAX : ℕ := 2 ^ 64 - 1

def read (text : AddressText) (a : TCPOverIPv4OverTunFdAdapter) (answer : Answer (List UInt8)) :
    Except Failure (Option TCPSegment × TCPOverIPv4OverTunFdAdapter) := do
  let (bytes, tun) ← a.tun.read SIZE_MAX answer
  let a := { a with tun := tun }
  let (result, ipDgram) := IPv4Datagram.parse {} bytes
  if result ≠ .noError then return (none, a)
  else
    let (seg, adapter) ← (a.adapter.unwrapTcpInIp text ipDgram).mapError .runtimeError
    return (seg, { a with adapter := adapter })

def write (a : TCPOverIPv4OverTunFdAdapter) (answer : Answer Unit) (seg : TCPSegment) :
    Except Failure (Option (List UInt8) × TCPOverIPv4OverTunFdAdapter) := do
  let (ipDgram, _) ← (a.adapter.wrapTcpInIp seg).mapError .runtimeError
  let out ← ipDgram.serialize.mapError .runtimeError
  let _ ← systemCall "writev" answer
  return (some out.concatenate, { a with tun := a.tun.registerWrite })

def fdAdapter (text : AddressText) :
    FdAdapter TCPOverIPv4OverTunFdAdapter (List UInt8) (List UInt8) where
  fd := tun
  read a _ answer := a.read text answer
  write a i seg := a.write i.kernel seg

end TCPOverIPv4OverTunFdAdapter

/-! ## TCP in UDP -/

structure TCPOverUDPSocketAdapter where
  config : FdAdapterConfig
  listening : Bool := false
  sock : FileDescriptor
  deriving DecidableEq

namespace TCPOverUDPSocketAdapter

/-- The payload that `UDPSocket::recv` has room for. -/
def MTU : ℕ := 65536

/-- A datagram arrives with the address of its source. -/
def recv (sock : FileDescriptor) (answer : Answer (Address × List UInt8)) :
    Except Failure ((Address × List UInt8) × FileDescriptor) := do
  let datagram ← systemCall "recvfrom" answer
  if MTU < datagram.2.length then .error (.runtimeError "recvfrom (oversized datagram)")
  else return (datagram, sock.registerRead)

def read (a : TCPOverUDPSocketAdapter) (answer : Answer (Address × List UInt8)) :
    Except Failure (Option TCPSegment × TCPOverUDPSocketAdapter) := do
  let (datagram, sock) ← recv a.sock answer
  let a := { a with sock := sock }
  if !a.listening && datagram.1 != a.config.destination then return (none, a)
  else
    let (result, seg) := TCPSegment.parse {} datagram.2 0
    if result ≠ .noError then return (none, a)
    else if a.listening then
      if seg.header.syn && !seg.header.rst then
        return (some seg, { a with
          config := { a.config with destination := datagram.1 }, listening := false })
      else return (none, a)
    else return (some seg, a)

/-- A datagram leaves with the address of its destination. -/
def write (a : TCPOverUDPSocketAdapter) (answer : Answer Unit) (seg : TCPSegment) :
    Except Failure (Option (Address × List UInt8) × TCPOverUDPSocketAdapter) := do
  let seg := { seg with header := { seg.header with
    sport := a.config.source.port, dport := a.config.destination.port } }
  let out ← (seg.serialize 0).mapError .runtimeError
  let _ ← systemCall "sendmsg" answer
  return (some (a.config.destination, out.concatenate), { a with sock := a.sock.registerWrite })

def fdAdapter :
    FdAdapter TCPOverUDPSocketAdapter (Address × List UInt8) (Address × List UInt8) where
  fd := sock
  read a _ answer := a.read answer
  write a i seg := a.write i.kernel seg

end TCPOverUDPSocketAdapter

/-! ## An adapter with losses -/

/-- The rates are members of the configuration of the adapter. -/
structure LossyFdAdapter (AdapterT : Type) where
  adapter : AdapterT
  lossRateDn : UInt16 := 0
  lossRateUp : UInt16 := 0

namespace LossyFdAdapter

variable {AdapterT Din Dout : Type}

def shouldDrop (a : LossyFdAdapter AdapterT) (uplink : Bool) (rand : UInt16) : Bool :=
  let loss := if uplink then a.lossRateUp else a.lossRateDn
  loss != 0 && decide (rand < loss)

/-- The underlying adapter reads the datagram before it is dropped. -/
def read (ad : FdAdapter AdapterT Din Dout) (a : LossyFdAdapter AdapterT) (rand : UInt16)
    (answer : Answer Din) : Except Failure (Option TCPSegment × LossyFdAdapter AdapterT) := do
  let (ret, adapter) ← ad.read a.adapter rand answer
  let a := { a with adapter := adapter }
  if a.shouldDrop false rand then return (none, a) else return (ret, a)

def write (ad : FdAdapter AdapterT Din Dout) (a : LossyFdAdapter AdapterT) (i : WriteAnswer)
    (seg : TCPSegment) : Except Failure (Option Dout × LossyFdAdapter AdapterT) :=
  if a.shouldDrop true i.rand then .ok (none, a)
  else do
    let (dout, adapter) ← ad.write a.adapter i seg
    return (dout, { a with adapter := adapter })

def fdAdapter (ad : FdAdapter AdapterT Din Dout) :
    FdAdapter (LossyFdAdapter AdapterT) Din Dout where
  fd a := ad.fd a.adapter
  read := read ad
  write := write ad

end LossyFdAdapter

/-! ## The adapters are faithful -/

theorem FileDescriptor.foreign_read {fd : FileDescriptor} {limit : ℕ}
    {answer : Answer (List UInt8)} {e : Failure} (h : fd.read limit answer = .error e) :
    e.Foreign := by
  rw [FileDescriptor.read, Halting.bind_eq_error_iff] at h
  rcases h with h | ⟨bytes, -, h⟩
  · obtain ⟨errno, -, rfl⟩ := systemCall_eq_error_iff.mp h
    exact Failure.foreign_unixError _ _
  · dsimp only at h
    split_ifs at h with hlong hempty
    · cases h
      decide
    · cases h
    · cases h

theorem FileDescriptor.foreign_writeOnce {fd : FileDescriptor} {buffer : BufferViewList}
    {answer : Answer ℕ} {e : Failure} (h : fd.writeOnce buffer answer = .error e) : e.Foreign := by
  rcases FileDescriptor.writeOnce_error h with ⟨errno, -, rfl⟩ | ⟨-, -, rfl⟩ | ⟨n, -, -, rfl⟩
  · exact Failure.foreign_unixError _ _
  · decide
  · decide

/-- An error of a part of the code that is rethrown as it is. -/
theorem Failure.foreign_mapError {α : Type} {r : Except String α} {inv : α → Prop} {e : Failure}
    (h : Halting.Ends (fun what => (Failure.runtimeError what).Foreign) inv r)
    (he : r.mapError .runtimeError = .error e) : e.Foreign := by
  cases r with
  | ok a => exact nomatch he
  | error what =>
      cases he
      exact h

theorem Failure.mapError_eq_ok_iff {α : Type} {r : Except String α} {a : α} :
    r.mapError Failure.runtimeError = .ok a ↔ r = .ok a := by
  cases r with
  | error what => exact iff_of_false nofun nofun
  | ok b => simp [Except.mapError]

theorem Address.ends_ofText (text : AddressText) (ip : String) (port : UInt16) :
    Halting.Ends (fun what => (Failure.runtimeError what).Foreign) (fun _ => True)
      (Address.ofText text ip port) := by
  rw [Address.ofText]
  cases text.getaddrinfo ip with
  | some ipv4Numeric => trivial
  | none => exact Failure.foreign_of_head (c := 'g') (by simp) (by decide)

theorem BufferList.ends_toBuffer (l : BufferList) :
    Halting.Ends (fun what => (Failure.runtimeError what).Foreign)
      (fun buffer => l.toBuffer = .ok buffer) l.toBuffer := by
  cases hbuffer : l.toBuffer with
  | ok buffer => rfl
  | error what =>
      rw [BufferList.toBuffer.eq_def] at hbuffer
      split at hbuffer
      · exact nomatch hbuffer
      · exact nomatch hbuffer
      · cases hbuffer
        exact Failure.foreign_of_head (c := 'B') (by simp) (by decide)

theorem TCPHeader.ends_serialize (h : TCPHeader) :
    Halting.Ends (fun what => (Failure.runtimeError what).Foreign) (fun _ => True)
      h.serialize := by
  rw [TCPHeader.serialize]
  split_ifs
  · change Failure.Foreign _
    decide
  · trivial

theorem TCPSegment.ends_serialize (seg : TCPSegment) (datagramLayerChecksum : UInt32) :
    Halting.Ends (fun what => (Failure.runtimeError what).Foreign) (fun _ => True)
      (seg.serialize datagramLayerChecksum) := by
  rw [TCPSegment.serialize]
  apply (TCPHeader.ends_serialize _).bind
  intro header _
  apply (TCPHeader.ends_serialize _).bind
  exact fun header' _ => trivial

theorem IPv4Header.ends_serialize (h : IPv4Header) :
    Halting.Ends (fun what => (Failure.runtimeError what).Foreign) (fun _ => True)
      h.serialize := by
  rw [IPv4Header.serialize]
  split_ifs
  · change Failure.Foreign _
    decide
  · change Failure.Foreign _
    decide
  · trivial

theorem IPv4Datagram.ends_serialize (d : IPv4Datagram) :
    Halting.Ends (fun what => (Failure.runtimeError what).Foreign) (fun _ => True)
      d.serialize := by
  rw [IPv4Datagram.serialize]
  split_ifs
  · change Failure.Foreign _
    decide
  · apply (IPv4Header.ends_serialize _).bind
    intro header _
    apply (IPv4Header.ends_serialize _).bind
    exact fun header' _ => trivial

namespace TCPOverIPv4Adapter

theorem ends_wrapTcpInIp (a : TCPOverIPv4Adapter) (seg : TCPSegment) :
    Halting.Ends (fun what => (Failure.runtimeError what).Foreign) (fun _ => True)
      (a.wrapTcpInIp seg) := by
  rw [wrapTcpInIp]
  apply (TCPSegment.ends_serialize _ _).bind
  exact fun payload _ => trivial

theorem ends_accept (text : AddressText) (a : TCPOverIPv4Adapter) (ipDgram : IPv4Datagram)
    (seg : TCPSegment) :
    Halting.Ends (fun what => (Failure.runtimeError what).Foreign) (fun _ => True)
      (a.accept text ipDgram seg) := by
  rw [accept]
  apply (Address.ends_ofText text _ _).bind
  intro source _
  apply (Address.ends_ofText text _ _).bind
  exact fun destination _ => trivial

/-- A segment that is unwrapped is the payload of the datagram. -/
theorem ends_unwrapTcpInIp (text : AddressText) (b : TCPOverIPv4Adapter)
    (ipDgram : IPv4Datagram) :
    Halting.Ends (fun what => (Failure.runtimeError what).Foreign)
      (fun r => ∀ seg', r.1 = some seg' → ∃ buffer, ipDgram.payload.toBuffer = .ok buffer ∧
        TCPSegment.parse {} buffer ipDgram.header.pseudoCksum = (.noError, seg'))
      (b.unwrapTcpInIp text ipDgram) := by
  have htaken : ∀ seg buffer, ipDgram.payload.toBuffer = .ok buffer →
      TCPSegment.parse {} buffer ipDgram.header.pseudoCksum = (.noError, seg) →
      ∀ a : TCPOverIPv4Adapter,
      Halting.Ends (fun what => (Failure.runtimeError what).Foreign)
        (fun r => ∀ seg', r.1 = some seg' → ∃ buffer, ipDgram.payload.toBuffer = .ok buffer ∧
          TCPSegment.parse {} buffer ipDgram.header.pseudoCksum = (.noError, seg'))
        (if seg.header.sport ≠ a.config.destination.port then pure (none, a)
          else pure (some seg, a) : Except String (Option TCPSegment × TCPOverIPv4Adapter)) := by
    intro seg buffer hbuffer hparse a
    split_ifs
    · exact nofun
    · rintro seg' ⟨rfl⟩
      exact ⟨buffer, hbuffer, hparse⟩
  rw [unwrapTcpInIp]
  by_cases hdst : (!b.listening && ipDgram.header.dst != b.config.source.ipv4Numeric) = true
  · rw [if_pos hdst]
    exact nofun
  rw [if_neg hdst]
  by_cases hsrc : (!b.listening && ipDgram.header.src != b.config.destination.ipv4Numeric) = true
  · rw [if_pos hsrc]
    exact nofun
  rw [if_neg hsrc]
  by_cases hproto : ipDgram.header.proto ≠ IPv4Header.PROTO_TCP
  · rw [if_pos hproto]
    exact nofun
  rw [if_neg hproto]
  apply (BufferList.ends_toBuffer _).bind
  intro buffer hbuffer
  obtain ⟨result, seg, hparse⟩ : ∃ result seg,
      TCPSegment.parse {} buffer ipDgram.header.pseudoCksum = (result, seg) := ⟨_, _, rfl⟩
  rw [hparse]
  dsimp only
  split_ifs with herror hdport hsyn hlistening
  · exact nofun
  · exact nofun
  · exact nofun
  · rw [not_not] at herror
    subst herror
    apply (ends_accept text b ipDgram seg).bind
    exact fun a _ => htaken seg buffer hbuffer hparse a
  · rw [not_not] at herror
    subst herror
    exact htaken seg buffer hbuffer hparse b

/-- Whoever takes the segment of a datagram takes what it brings. -/
theorem Brings.eq_of_unwrap {a b b' : TCPOverIPv4Adapter} {seg seg' : TCPSegment}
    {ipDgram : IPv4Datagram} {text : AddressText} (h : a.Brings seg ipDgram)
    (hunwrap : b.unwrapTcpInIp text ipDgram = .ok (some seg', b')) : seg' = seg := by
  obtain ⟨buffer, hpayload, hparse⟩ := h.payload
  have hends := ends_unwrapTcpInIp text b ipDgram
  rw [hunwrap] at hends
  obtain ⟨buffer', hbuffer', hparse'⟩ := hends seg' rfl
  rw [hpayload] at hbuffer'
  obtain rfl : buffer = buffer' := Except.ok.inj hbuffer'
  rw [hparse] at hparse'
  exact (Prod.mk.inj hparse').2.symm

end TCPOverIPv4Adapter

namespace TCPOverIPv4OverTunFdAdapter

theorem read_eq_ok {text : AddressText} {a a' : TCPOverIPv4OverTunFdAdapter}
    {answer : Answer (List UInt8)} {r : Option TCPSegment}
    (h : a.read text answer = .ok (r, a')) : a'.tun.readCount = a.tun.readCount + 1 ∧
      ∃ bytes, answer = .ok bytes ∧ ∀ seg, r = some seg → ∃ ipDgram adapter,
        IPv4Datagram.parse {} bytes = (.noError, ipDgram) ∧
        a.adapter.unwrapTcpInIp text ipDgram = .ok (some seg, adapter) := by
  rw [read, Halting.bind_eq_ok_iff] at h
  obtain ⟨⟨bytes, tun⟩, htun, h⟩ := h
  obtain ⟨rfl, -, -⟩ := FileDescriptor.read_eq_ok htun
  have hcount := FileDescriptor.readCount_read htun
  obtain ⟨result, ipDgram, hparse⟩ : ∃ result ipDgram,
      IPv4Datagram.parse {} bytes = (result, ipDgram) := ⟨_, _, rfl⟩
  dsimp only at h
  rw [hparse] at h
  dsimp only at h
  split_ifs at h with hbad
  · cases h
    exact ⟨hcount, bytes, rfl, nofun⟩
  · rw [not_not] at hbad
    subst hbad
    rw [Halting.bind_eq_ok_iff] at h
    obtain ⟨⟨seg, adapter⟩, hunwrap, h⟩ := h
    cases h
    rw [Failure.mapError_eq_ok_iff] at hunwrap
    refine ⟨hcount, bytes, rfl, ?_⟩
    rintro seg rfl
    exact ⟨ipDgram, adapter, hparse, hunwrap⟩

theorem foreign_read {text : AddressText} {a : TCPOverIPv4OverTunFdAdapter}
    {answer : Answer (List UInt8)} {e : Failure} (h : a.read text answer = .error e) :
    e.Foreign := by
  rw [read, Halting.bind_eq_error_iff] at h
  rcases h with htun | ⟨⟨bytes, tun⟩, -, h⟩
  · exact FileDescriptor.foreign_read htun
  · dsimp only at h
    split_ifs at h
    · exact nomatch h
    · rw [Halting.bind_eq_error_iff] at h
      rcases h with hunwrap | ⟨⟨seg, adapter⟩, -, h⟩
      · exact Failure.foreign_mapError
          (TCPOverIPv4Adapter.ends_unwrapTcpInIp text _ _) hunwrap
      · exact nomatch h

/-- What is written brings its segment to everyone who reads it. -/
theorem exists_brings_of_write {a a' : TCPOverIPv4OverTunFdAdapter} {seg : TCPSegment}
    {bytes : List UInt8} {answer : Answer Unit} (hseg : seg.Sendable)
    (h : a.write answer seg = .ok (some bytes, a')) :
    ∃ cksum arrived, IPv4Datagram.parse {} bytes = (.noError, arrived) ∧
      a.adapter.Brings (seg.readdress a.adapter.config.source.port
        a.adapter.config.destination.port cksum) arrived := by
  have hdoff := hseg.doff_eq
  have hpayload := hseg.length_payload_le
  have hmax : TCPConfig.MAX_PAYLOAD_SIZE = 1452 := rfl
  have hlo : 5 ≤ seg.header.doff := by
    rw [hdoff]
    decide
  have hhi : seg.header.doff ≤ 15 := by
    rw [hdoff]
    decide
  have hlength : 20 + 4 * seg.header.doff.toNat + seg.payload.length ≤ 65535 := by
    rw [hdoff]
    change 20 + 4 * 5 + _ ≤ _
    omega
  obtain ⟨ipDgram, out, cksum, hwrap, hout, harrive⟩ :=
    TCPOverIPv4Adapter.exists_brings a.adapter hlo hhi hlength
  obtain ⟨arrived, hparse, hbrings⟩ := harrive {}
  rw [write, hwrap, Halting.bind_eq_ok_iff] at h
  obtain ⟨sent, hsent, h⟩ := h
  cases hsent
  dsimp only at h
  rw [hout, Halting.bind_eq_ok_iff] at h
  obtain ⟨sent, hsent, h⟩ := h
  cases hsent
  cases eq_of_systemCall_bind_pure h
  exact ⟨cksum, arrived, hparse, hbrings⟩

theorem tun_faithful (text : AddressText) : (fdAdapter text).Faithful Eq where
  brings := by
    rintro a b a' b' i rand seg seg' dout din hseg hwrite rfl hread
    obtain ⟨cksum, arrived, hparse, hbrings⟩ := exists_brings_of_write hseg hwrite
    obtain ⟨-, bytes, hbytes, htaken⟩ := read_eq_ok hread
    cases hbytes
    obtain ⟨ipDgram, adapter, hparse', hunwrap⟩ := htaken seg' rfl
    rw [hparse] at hparse'
    cases hparse'
    exact ⟨_, _, cksum, hbrings.eq_of_unwrap hunwrap⟩
  answered := fun {_ _ _ _} hread => by
    obtain ⟨-, din, hdin, -⟩ := read_eq_ok hread
    exact ⟨din, hdin⟩
  counts := fun hread => (read_eq_ok hread).1
  foreign_read := fun hread => foreign_read hread
  foreign_write := by
    intro a i seg e hwrite
    change a.write i.kernel seg = .error e at hwrite
    rw [write, Halting.bind_eq_error_iff] at hwrite
    rcases hwrite with hwrap | ⟨⟨ipDgram, sent⟩, -, hwrite⟩
    · exact Failure.foreign_mapError (TCPOverIPv4Adapter.ends_wrapTcpInIp _ _) hwrap
    · rw [Halting.bind_eq_error_iff] at hwrite
      rcases hwrite with hserialize | ⟨out, -, hwrite⟩
      · exact Failure.foreign_mapError (IPv4Datagram.ends_serialize _) hserialize
      · exact foreign_systemCall_bind_pure hwrite

end TCPOverIPv4OverTunFdAdapter

namespace TCPOverUDPSocketAdapter

theorem read_eq_ok {a a' : TCPOverUDPSocketAdapter} {answer : Answer (Address × List UInt8)}
    {r : Option TCPSegment} (h : a.read answer = .ok (r, a')) :
    a'.sock.readCount = a.sock.readCount + 1 ∧ ∃ datagram, answer = .ok datagram ∧
      ∀ seg, r = some seg → TCPSegment.parse {} datagram.2 0 = (.noError, seg) := by
  rw [read, Halting.bind_eq_ok_iff] at h
  obtain ⟨⟨datagram, sock⟩, hsock, h⟩ := h
  have hrecv : answer = .ok datagram ∧ sock = a.sock.registerRead := by
    rw [recv, Halting.bind_eq_ok_iff] at hsock
    obtain ⟨datagram', hanswer, hsock⟩ := hsock
    split_ifs at hsock
    cases hsock
    exact ⟨systemCall_eq_ok_iff.mp hanswer, rfl⟩
  obtain ⟨rfl, rfl⟩ := hrecv
  obtain ⟨result, seg, hparse⟩ : ∃ result seg,
      TCPSegment.parse {} datagram.2 0 = (result, seg) := ⟨_, _, rfl⟩
  dsimp only at h
  rw [hparse] at h
  dsimp only at h
  split_ifs at h with hsource hbad hlistening hsyn
  · cases h
    exact ⟨rfl, datagram, rfl, nofun⟩
  · cases h
    exact ⟨rfl, datagram, rfl, nofun⟩
  · cases h
    rw [not_not] at hbad
    subst hbad
    refine ⟨rfl, datagram, rfl, ?_⟩
    rintro seg ⟨rfl⟩
    exact hparse
  · cases h
    exact ⟨rfl, datagram, rfl, nofun⟩
  · cases h
    rw [not_not] at hbad
    subst hbad
    refine ⟨rfl, datagram, rfl, ?_⟩
    rintro seg ⟨rfl⟩
    exact hparse

theorem foreign_read {a : TCPOverUDPSocketAdapter} {answer : Answer (Address × List UInt8)}
    {e : Failure} (h : a.read answer = .error e) : e.Foreign := by
  rw [read, Halting.bind_eq_error_iff] at h
  rcases h with hsock | ⟨⟨datagram, sock⟩, -, h⟩
  · rw [recv, Halting.bind_eq_error_iff] at hsock
    rcases hsock with hanswer | ⟨datagram, -, hsock⟩
    · obtain ⟨errno, -, rfl⟩ := systemCall_eq_error_iff.mp hanswer
      exact Failure.foreign_unixError _ _
    · split_ifs at hsock
      · cases hsock
        decide
      · exact nomatch hsock
  · dsimp only at h
    split_ifs at h
    all_goals exact nomatch h

/-- The network may claim any source for a datagram. -/
theorem faithful : fdAdapter.Faithful fun dout din => dout.2 = din.2 where
  brings := by
    rintro a b a' b' i rand seg seg' dout din hseg hwrite hcarries hread
    change a.write i.kernel seg = .ok (some dout, a') at hwrite
    have hdoff := hseg.doff_eq
    have hpayload := hseg.length_payload_le
    have hmax : TCPConfig.MAX_PAYLOAD_SIZE = 1452 := rfl
    obtain ⟨out, cksum, hout, -, hparse⟩ := TCPSegment.exists_parse_serialize
      (seg.readdress a.config.source.port a.config.destination.port seg.header.cksum) 0
      (by rw [TCPSegment.readdress, hdoff]; decide)
      (by rw [TCPSegment.readdress, hdoff]; decide) (by
        rw [TCPSegment.readdress, hdoff]
        change 0 + 65280 * (4 * 5 + seg.payload.length) < _
        omega)
    rw [write] at hwrite
    change ((seg.readdress a.config.source.port a.config.destination.port
      seg.header.cksum).serialize 0).mapError _ >>= _ = _ at hwrite
    rw [hout] at hwrite
    rw [Halting.bind_eq_ok_iff] at hwrite
    obtain ⟨sent, hsent, hwrite⟩ := hwrite
    cases hsent
    cases eq_of_systemCall_bind_pure hwrite
    obtain ⟨-, datagram, hdatagram, htaken⟩ := read_eq_ok hread
    cases hdatagram
    have htaken' := htaken seg' rfl
    rw [← hcarries, hparse {}] at htaken'
    exact ⟨_, _, cksum, (Prod.mk.inj htaken').2.symm⟩
  answered := fun {_ _ _ _} hread => by
    obtain ⟨-, din, hdin, -⟩ := read_eq_ok hread
    exact ⟨din, hdin⟩
  counts := fun hread => (read_eq_ok hread).1
  foreign_read := fun hread => foreign_read hread
  foreign_write := by
    intro a i seg e hwrite
    change a.write i.kernel seg = .error e at hwrite
    rw [write, Halting.bind_eq_error_iff] at hwrite
    rcases hwrite with hserialize | ⟨out, -, hwrite⟩
    · exact Failure.foreign_mapError (TCPSegment.ends_serialize _ _) hserialize
    · exact foreign_systemCall_bind_pure hwrite

end TCPOverUDPSocketAdapter

namespace LossyFdAdapter

variable {AdapterT Din Dout : Type} {ad : FdAdapter AdapterT Din Dout}

/-- The underlying adapter has read what is not dropped. -/
theorem read_eq_ok {a a' : LossyFdAdapter AdapterT} {rand : UInt16} {answer : Answer Din}
    {r : Option TCPSegment} (h : read ad a rand answer = .ok (r, a')) :
    ∃ ret, ad.read a.adapter rand answer = .ok (ret, a'.adapter) ∧
      ∀ seg, r = some seg → ret = some seg := by
  rw [read, Halting.bind_eq_ok_iff] at h
  obtain ⟨⟨ret, adapter⟩, hread, h⟩ := h
  dsimp only at h
  split_ifs at h
  · cases h
    exact ⟨ret, hread, nofun⟩
  · cases h
    exact ⟨r, hread, fun _ hr => hr⟩

/-- Losses do not change what arrives. -/
theorem faithful {carries : Dout → Din → Prop} (h : ad.Faithful carries) :
    (fdAdapter ad).Faithful carries where
  brings := by
    rintro a b a' b' i rand seg seg' dout din hseg hwrite hcarries hread
    change write ad a i seg = _ at hwrite
    rw [write] at hwrite
    split_ifs at hwrite
    · cases hwrite
    · rw [Halting.bind_eq_ok_iff] at hwrite
      obtain ⟨⟨dout', adapter⟩, hwrite, hpure⟩ := hwrite
      cases hpure
      obtain ⟨ret, hread', hret⟩ := read_eq_ok hread
      rw [hret seg' rfl] at hread'
      exact h.brings hseg hwrite hcarries hread'
  answered := by
    intro a rand answer r hread
    obtain ⟨ret, hread', -⟩ := read_eq_ok hread
    exact h.answered hread'
  counts := by
    intro a a' rand answer r hread
    obtain ⟨ret, hread', -⟩ := read_eq_ok hread
    exact h.counts hread'
  foreign_read := by
    intro a rand answer e hread
    change read ad a rand answer = _ at hread
    rw [read, Halting.bind_eq_error_iff] at hread
    rcases hread with hread | ⟨⟨ret, adapter⟩, -, hread⟩
    · exact h.foreign_read hread
    · dsimp only at hread
      split_ifs at hread
      · exact nomatch hread
      · exact nomatch hread
  foreign_write := by
    intro a i seg e hwrite
    change write ad a i seg = _ at hwrite
    rw [write] at hwrite
    split_ifs at hwrite
    rw [Halting.bind_eq_error_iff] at hwrite
    rcases hwrite with hwrite | ⟨⟨dout, adapter⟩, -, hwrite⟩
    · exact h.foreign_write hwrite
    · exact nomatch hwrite

end LossyFdAdapter

end NetworkLabs
