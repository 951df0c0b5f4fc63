import Mathlib.Algebra.GroupWithZero.Nat
import Mathlib.Data.Int.Notation
import NetworkLabs.Ethernet
import NetworkLabs.Library.FirstMatch

/-!
# The learning switch

The table follows `mac.h` and `mac.c`, the forwarding `main.c` and
`broadcast.c`. An interface is known to the program by a pointer, so the type of
the interfaces is a parameter, and `Ustack.index` reads the field that
`broadcast_packet` compares. The clock is read once by each insertion and once
by each sweep.

An entry lies in the bucket of its address, because `insert_mac_port` puts it
there and nothing moves it: the table carries the proof.
-/

namespace NetworkLabs

namespace Switching

def HASH_8BITS : ℕ := 256

def MAC_PORT_TIMEOUT : ℤ := 30

/-- A frame: the addresses of the Ethernet header, and what lies behind them. -/
structure Frame where
  etherDhost : Mac
  etherShost : Mac
  rest : List UInt8

/-- The interfaces of the machine. -/
structure Ustack (ι : Type*) where
  ifaceList : List ι
  index : ι → ℤ

structure MacPortEntry (ι : Type*) where
  mac : Mac
  iface : ι
  visited : ℤ

def calculateHash (mac : Mac) : ℕ :=
  mac.toList.foldl (fun hash b => hash + b.toNat) 0 % HASH_8BITS

theorem calculateHash_lt (mac : Mac) : calculateHash mac < HASH_8BITS :=
  Nat.mod_lt _ (by decide)

/-- The bucket of an address. -/
def bucket (mac : Mac) : Fin HASH_8BITS := ⟨calculateHash mac, calculateHash_lt mac⟩

structure MacPortMap (ι : Type*) where
  hashTable : Fin HASH_8BITS → List (MacPortEntry ι)
  placed : ∀ i, ∀ e ∈ hashTable i, bucket e.mac = i

variable {ι : Type*}

/-- The test of the sweep, in which the age is converted to an `int`. -/
def isAged (now : ℤ) (entry : MacPortEntry ι) : Bool :=
  decide (MAC_PORT_TIMEOUT < (Int32.ofInt (now - entry.visited)).toInt)

/-- One round of the loop over a bucket, with the entries kept so far and the
number of those that are removed. -/
def sweepEntry (now : ℤ) (st : List (MacPortEntry ι) × ℕ) (entry : MacPortEntry ι) :
    List (MacPortEntry ι) × ℕ :=
  if isAged now entry then (st.1, st.2 + 1) else (st.1 ++ [entry], st.2)

def sweepBucket (now : ℤ) (entries : List (MacPortEntry ι)) : List (MacPortEntry ι) × ℕ :=
  entries.foldl (sweepEntry now) ([], 0)

theorem foldl_sweepEntry (now : ℤ) (entries : List (MacPortEntry ι))
    (st : List (MacPortEntry ι) × ℕ) :
    entries.foldl (sweepEntry now) st =
      (st.1 ++ entries.filter (fun e => !isAged now e), st.2 + entries.countP (isAged now)) := by
  induction entries generalizing st with
  | nil => simp
  | cons e entries ih =>
      rw [List.foldl_cons, ih, sweepEntry]
      by_cases haged : isAged now e = true
      · simp [haged, Nat.add_assoc, Nat.add_comm 1]
      · simp [haged]

/-- The entries that are kept, and the number of the others. -/
theorem sweepBucket_eq (now : ℤ) (entries : List (MacPortEntry ι)) :
    sweepBucket now entries =
      (entries.filter (fun e => !isAged now e), entries.countP (isAged now)) := by
  rw [sweepBucket, foldl_sweepEntry, List.nil_append, Nat.zero_add]

namespace MacPortMap

/-- The table after `init_mac_port_table`. -/
def init : MacPortMap ι where
  hashTable := fun _ => []
  placed := fun _ _ h => absurd h List.not_mem_nil

/-- The scan of `lookup_port`: the buckets in their order, and each from the
front. -/
def findEntry (map : MacPortMap ι) (mac : Mac) : Option (MacPortEntry ι) :=
  ((List.finRange HASH_8BITS).flatMap map.hashTable).find? (fun e => e.mac == mac)

def lookupPort (map : MacPortMap ι) (mac : Mac) : Option ι :=
  (map.findEntry mac).map MacPortEntry.iface

def insertMacPort (map : MacPortMap ι) (mac : Mac) (iface : ι) (now : ℤ) : MacPortMap ι where
  hashTable := Function.update map.hashTable (bucket mac)
    (map.hashTable (bucket mac) ++ [{ mac := mac, iface := iface, visited := now }])
  placed := by
    intro i e he
    by_cases hi : i = bucket mac
    · subst hi
      rw [Function.update_self, List.mem_append, List.mem_singleton] at he
      rcases he with hold | rfl
      · exact map.placed _ e hold
      · rfl
    · rw [Function.update_of_ne hi] at he
      exact map.placed i e he

/-- The table after a sweep, and the number of entries it has removed. -/
def sweepAgedMacPortEntry (map : MacPortMap ι) (now : ℤ) : MacPortMap ι × ℕ :=
  ({ hashTable := fun i => (sweepBucket now (map.hashTable i)).1
     placed := by
       intro i e he
       rw [sweepBucket_eq] at he
       exact map.placed i e (List.mem_of_mem_filter he) },
    ((List.finRange HASH_8BITS).map fun i => (sweepBucket now (map.hashTable i)).2).sum)

end MacPortMap

/-- The interfaces on which a frame is sent when its destination is unknown. -/
def broadcastPacket (ustack : Ustack ι) (iface : ι) (frame : Frame) : List (ι × Frame) :=
  (ustack.ifaceList.filter fun tx => ustack.index tx != ustack.index iface).map (·, frame)

/-- The table afterwards, and what is sent on which interface. -/
def handlePacket (ustack : Ustack ι) (map : MacPortMap ι) (iface : ι) (frame : Frame) (now : ℤ) :
    MacPortMap ι × List (ι × Frame) :=
  (match map.lookupPort frame.etherShost with
    | some _ => map
    | none => map.insertMacPort frame.etherShost iface now,
   match map.lookupPort frame.etherDhost with
    | some tx => [(tx, frame)]
    | none => broadcastPacket ustack iface frame)

/-! ## Runs -/

inductive Event (ι : Type*) where
  | frame (iface : ι) (frame : Frame) (now : ℤ)
  | sweep (now : ℤ)

def step (ustack : Ustack ι) (map : MacPortMap ι) : Event ι → MacPortMap ι
  | .frame iface frame now => (handlePacket ustack map iface frame now).1
  | .sweep now => (map.sweepAgedMacPortEntry now).1

def run (ustack : Ustack ι) (map : MacPortMap ι) (events : List (Event ι)) : MacPortMap ι :=
  events.foldl (step ustack) map

end Switching

end NetworkLabs
