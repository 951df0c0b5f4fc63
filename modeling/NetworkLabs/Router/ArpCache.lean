import Mathlib.Logic.Function.Basic
import NetworkLabs.Library.FirstMatch
import NetworkLabs.Router.Packet

/-!
# The ARP cache

The cache follows `arpcache.h` and `arpcache.c`: a table of 32 mappings from IP
addresses to Ethernet addresses, and the requests that wait for an answer, each
with the packets that are pending on it. The clock is read at most twice by an
insertion, and once by each append and each sweep. Requests that are sent and
ICMP messages are emitted and not followed further.
-/

namespace NetworkLabs

namespace Router

def MAX_ARP_SIZE : ℕ := 32

def ARP_ENTRY_TIMEOUT : ℤ := 15

def ARP_REQUEST_MAX_RETRIES : ℕ := 5

/-- A slot of the table; `valid` is 0 or 1 in the source. -/
structure ArpCacheEntry where
  ip4 : UInt32 := 0
  mac : Mac := Vector.replicate ETH_ALEN 0
  added : ℤ := 0
  valid : Bool := false

structure ArpReq (ι : Type*) where
  iface : ι
  ip4 : UInt32
  sent : ℤ
  retries : ℕ
  cachedPackets : List Packet

structure ArpCache (ι : Type*) where
  entries : Fin MAX_ARP_SIZE → ArpCacheEntry
  reqList : List (ArpReq ι)

variable {ι : Type*}

/-! ## The table -/

/-- The slots in the order of the loops. -/
def slots : List (Fin MAX_ARP_SIZE) := List.finRange MAX_ARP_SIZE

/-- The test of the lookup as it is written: `valid` is compared with the
address. -/
def ArpCacheEntry.answers (entry : ArpCacheEntry) (ip4 : UInt32) : Bool :=
  entry.ip4 != 0 && (if entry.valid then 1 else 0) == ip4

/-- The test of the insertion. -/
def ArpCacheEntry.isFor (entry : ArpCacheEntry) (ip4 : UInt32) : Bool :=
  entry.valid && entry.ip4 == ip4

/-- The loop that looks for a slot: the first one that is not valid, or else the
first of those that were added before all others and before `oldest`. -/
def slotLoop (entries : Fin MAX_ARP_SIZE → ArpCacheEntry) :
    List (Fin MAX_ARP_SIZE) → Option (Fin MAX_ARP_SIZE) → ℤ → Option (Fin MAX_ARP_SIZE)
  | [], index, _ => index
  | i :: rest, index, oldest =>
      if !(entries i).valid then some i
      else if (entries i).added < oldest then slotLoop entries rest (some i) (entries i).added
      else slotLoop entries rest index oldest

/-- The slot for a new mapping. There is none if the index stays at -1. -/
def findSlot (entries : Fin MAX_ARP_SIZE → ArpCacheEntry) (now : ℤ) :
    Option (Fin MAX_ARP_SIZE) := slotLoop entries slots none (now + 1)

/-- The table after an insertion, which reads `now` from the clock, and then
`later` if the mapping is new. A store at index -1 is outside the table. -/
def insertEntry (entries : Fin MAX_ARP_SIZE → ArpCacheEntry) (ip4 : UInt32) (mac : Mac)
    (now later : ℤ) : Fin MAX_ARP_SIZE → ArpCacheEntry :=
  match slots.find? (fun i => (entries i).isFor ip4) with
  | some i => Function.update entries i { entries i with mac := mac, added := now }
  | none =>
      match findSlot entries now with
      | some i =>
          Function.update entries i { ip4 := ip4, mac := mac, added := later, valid := true }
      | none => entries

def sweepEntry (now : ℤ) (entry : ArpCacheEntry) : ArpCacheEntry :=
  if entry.valid && decide (ARP_ENTRY_TIMEOUT < now - entry.added) then
    { entry with valid := false }
  else entry

/-! ## The requests -/

/-- A loop over the requests: each round keeps its request, changed or not, or
deletes it, and emits something. -/
def eachReq (round : ArpReq ι → Option (ArpReq ι) × List (Emission ι)) (reqs : List (ArpReq ι)) :
    List (ArpReq ι) × List (Emission ι) :=
  (reqs.filterMap fun req => (round req).1, reqs.flatMap fun req => (round req).2)

/-- The packets that are pending on the address are sent. -/
def flushReq (ip4 : UInt32) (mac : Mac) (req : ArpReq ι) :
    Option (ArpReq ι) × List (Emission ι) :=
  if req.ip4 = ip4 then
    (none, req.cachedPackets.map fun packet => .transmit req.iface (packet.setDhost mac))
  else (some req, [])

/-- A request is given up, sent again, or left alone. -/
def sweepReq (now : ℤ) (req : ArpReq ι) : Option (ArpReq ι) × List (Emission ι) :=
  if req.retries > ARP_REQUEST_MAX_RETRIES then
    (none, req.cachedPackets.map fun packet => .icmp packet ICMP_DEST_UNREACH ICMP_HOST_UNREACH)
  else if now - req.sent > 1 then
    (some { req with retries := req.retries + 1, sent := now }, [.arpRequest req.iface req.ip4])
  else (some req, [])

namespace ArpCache

/-- The cache after `arpcache_init`. -/
def init : ArpCache ι where
  entries := fun _ => {}
  reqList := []

/-- The address that is copied, if the lookup returns 1. -/
def lookup (cache : ArpCache ι) (ip4 : UInt32) : Option Mac :=
  (slots.find? fun i => (cache.entries i).answers ip4).map fun i => (cache.entries i).mac

def appendPacket [DecidableEq ι] (cache : ArpCache ι) (iface : ι) (ip4 : UInt32)
    (packet : Packet) (now : ℤ) : ArpCache ι × List (Emission ι) :=
  let waits := fun req : ArpReq ι => req.ip4 == ip4 && req.iface == iface
  let newEntry : ArpReq ι := {
    iface := iface, ip4 := ip4, sent := now, retries := 0, cachedPackets := [] }
  ({ cache with
      reqList := FirstMatch.upsert waits
        (fun req => { req with cachedPackets := req.cachedPackets ++ [packet] })
        newEntry cache.reqList },
    if cache.reqList.any waits then [] else [.arpRequest iface ip4])

def insert (cache : ArpCache ι) (ip4 : UInt32) (mac : Mac) (now later : ℤ) :
    ArpCache ι × List (Emission ι) :=
  ({ entries := insertEntry cache.entries ip4 mac now later
     reqList := (eachReq (flushReq ip4 mac) cache.reqList).1 },
    (eachReq (flushReq ip4 mac) cache.reqList).2)

/-- One round of the sweeping thread. -/
def sweep (cache : ArpCache ι) (now : ℤ) : ArpCache ι × List (Emission ι) :=
  ({ entries := fun i => sweepEntry now (cache.entries i)
     reqList := (eachReq (sweepReq now) cache.reqList).1 },
    (eachReq (sweepReq now) cache.reqList).2)

end ArpCache

/-! ## Runs -/

inductive Event (ι : Type*) where
  | append (iface : ι) (ip4 : UInt32) (frame : Frame) (now : ℤ)
  | insert (ip4 : UInt32) (mac : Mac) (now later : ℤ)
  | sweep (now : ℤ)

/-- The cache, what has been emitted so far, and the number of calls, which is
also the serial number of the next packet. -/
structure State (ι : Type*) where
  cache : ArpCache ι
  emitted : List (Emission ι)
  calls : ℕ

namespace State

variable [DecidableEq ι]

def init : State ι where
  cache := .init
  emitted := []
  calls := 0

/-- The call of an event. -/
def call (s : State ι) : Event ι → ArpCache ι × List (Emission ι)
  | .append iface ip4 frame now =>
      s.cache.appendPacket iface ip4 { serial := s.calls, frame := frame } now
  | .insert ip4 mac now later => s.cache.insert ip4 mac now later
  | .sweep now => s.cache.sweep now

def step (s : State ι) (e : Event ι) : State ι where
  cache := (s.call e).1
  emitted := s.emitted ++ (s.call e).2
  calls := s.calls + 1

def run (events : List (Event ι)) : State ι := events.foldl step init

end State

end Router

end NetworkLabs
