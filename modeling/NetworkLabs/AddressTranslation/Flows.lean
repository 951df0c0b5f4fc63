import NetworkLabs.AddressTranslation.Ports

/-!
# The packets of a mapping

A mapping keeps little of the packets that have been translated with it. The
ledger is the table with the packets of every mapping beside it, as they have
come in, those from inside and those from outside. Without them it runs as the
table does.
-/

namespace NetworkLabs

/-- A mapping, and the packets that have been translated with it. -/
structure Flow where
  mapping : NatMapping
  outbound : List Packet
  inbound : List Packet

namespace Flow

/-- A mapping with which no packet has been translated yet. -/
def new (m : NatMapping) : Flow where
  mapping := m
  outbound := []
  inbound := []

def noteOutbound (f : Flow) (p : Packet) (now : ℤ) : Flow :=
  { f with
    mapping := f.mapping.noteOutbound p.tcp now
    outbound := f.outbound ++ [p] }

def noteInbound (f : Flow) (p : Packet) (now : ℤ) : Flow :=
  { f with
    mapping := f.mapping.noteInbound p.tcp now
    inbound := f.inbound ++ [p] }

/-- A packet of the mapping has come from the remote host, or has gone there. -/
def IsFor (f : Flow) (remote : UInt32) : Prop :=
  (∃ p ∈ f.outbound, ntohl p.ip.daddr = remote) ∨ ∃ p ∈ f.inbound, ntohl p.ip.saddr = remote

end Flow

namespace NatTable

/-- The mapping is for the endpoint that the packet goes to. -/
def isDestination (p : Packet) (m : NatMapping) : Bool :=
  m.isExternal (ntohl p.ip.daddr) (ntohs p.tcp.dport)

/-- The mapping that is made for a packet from outside. -/
def newInbound (p : Packet) : NatMapping where
  externalIp := ntohl p.ip.daddr
  externalPort := ntohs p.tcp.dport
  created := .dirIn

/-- The mapping that is made for a packet from inside. -/
def newOutbound (nat : NatTable) (p : Packet) : NatMapping where
  internalIp := ntohl p.ip.saddr
  internalPort := ntohs p.tcp.sport
  externalIp := nat.externalIface.ip
  externalPort := (assignPort nat.assignedPorts).2
  created := .dirOut

end NatTable

open NatTable

structure Ledger where
  nat : NatTable
  flows : UInt8 → List Flow

namespace Ledger

def init (externalIface : IfaceInfo) (rules : List DnatRule) : Ledger where
  nat := natInit externalIface rules
  flows := fun _ => []

/-- The flows after an event. -/
def record (t : Ledger) : Event → UInt8 → List Flow
  | .packet p dir now =>
      if dir = .dirIn then
        let i := hashI (ntohl p.ip.saddr)
        Function.update t.flows i (FirstMatch.upsert (fun f => isDestination p f.mapping)
          (fun f => f.noteInbound p now) (.new (newInbound p)) (t.flows i))
      else
        let i := hashI (ntohl p.ip.daddr)
        Function.update t.flows i (FirstMatch.upsert (fun f => isSource p f.mapping)
          (fun f => f.noteOutbound p now) (.new (t.nat.newOutbound p)) (t.flows i))
  | .timeout now => fun i => (t.flows i).filter fun f => !isExpired now f.mapping

def step (t : Ledger) (ev : Event) : Ledger where
  nat := t.nat.step ev
  flows := t.record ev

def run (externalIface : IfaceInfo) (rules : List DnatRule) (events : List Event) : Ledger :=
  events.foldl step (init externalIface rules)

theorem nat_foldl (t : Ledger) (events : List Event) :
    (events.foldl step t).nat = t.nat.run events := by
  induction events generalizing t with
  | nil => rfl
  | cons ev events ih => exact ih (t.step ev)

theorem nat_run (externalIface : IfaceInfo) (rules : List DnatRule) (events : List Event) :
    (run externalIface rules events).nat = (natInit externalIface rules).run events :=
  nat_foldl _ events

/-- The mappings of the ledger are those of the table. -/
def Tells (t : Ledger) : Prop :=
  ∀ i, (t.flows i).map Flow.mapping = t.nat.natMappingList i

/-- An update of one chain of flows updates the same chain of mappings. -/
theorem map_update_upsert {flows : UInt8 → List Flow} {lists : UInt8 → List NatMapping}
    (h : ∀ i, (flows i).map Flow.mapping = lists i) (c : UInt8) {fits : NatMapping → Bool}
    {f : Flow → Flow} {f' : NatMapping → NatMapping} (hf : ∀ b, (f b).mapping = f' b.mapping)
    (fresh : Flow) (i : UInt8) :
    (Function.update flows c (FirstMatch.upsert (fun b => fits b.mapping) f fresh (flows c))
        i).map Flow.mapping =
      Function.update lists c (FirstMatch.upsert fits f' fresh.mapping (lists c)) i := by
  by_cases hi : i = c
  · subst hi
    rw [Function.update_self, Function.update_self, ← h]
    exact FirstMatch.map_upsert Flow.mapping (fun _ => rfl) hf
  · rw [Function.update_of_ne hi, Function.update_of_ne hi]
    exact h i

theorem Tells.step {t : Ledger} (h : t.Tells) (ev : Event) : (t.step ev).Tells := by
  intro i
  cases ev with
  | packet p dir now =>
      change (t.record (.packet p dir now) i).map Flow.mapping =
        (t.nat.doTranslation p dir now).1.natMappingList i
      rw [record, doTranslation]
      split_ifs
      · exact map_update_upsert h _ (fun _ => rfl) (.new (newInbound p)) i
      · exact map_update_upsert h _ (fun _ => rfl) (.new (t.nat.newOutbound p)) i
  | timeout now =>
      change ((t.flows i).filter _).map Flow.mapping = (t.nat.natTimeout now).natMappingList i
      rw [natMappingList_natTimeout, ← h, List.filter_map]
      rfl

theorem tells_run (externalIface : IfaceInfo) (rules : List DnatRule) (events : List Event) :
    (run externalIface rules events).Tells := by
  apply Transition.foldl_invariant Tells (fun _ ev h => h.step ev)
  intro i
  exact ((installed_natInit externalIface rules).empty i).symm

theorem forall_update_upsert {P : Flow → Prop} {flows : UInt8 → List Flow}
    (h : ∀ i, ∀ f ∈ flows i, P f) (c : UInt8) {fits : Flow → Bool} {f : Flow → Flow}
    (hf : ∀ b, P b → P (f b)) {fresh : Flow} (hfresh : P fresh) (i : UInt8) :
    ∀ b ∈ Function.update flows c (FirstMatch.upsert fits f fresh (flows c)) i, P b := by
  by_cases hi : i = c
  · subst hi
    rw [Function.update_self]
    exact FirstMatch.forall_mem_upsert hf hfresh (h i)
  · rw [Function.update_of_ne hi]
    exact h i

/-- A property of all flows that is kept by an event. -/
theorem forall_record {P : Flow → Prop} (hnew : ∀ m : NatMapping, m.conn = {} → P (.new m))
    (hout : ∀ f p now, P f → P (f.noteOutbound p now))
    (hin : ∀ f p now, P f → P (f.noteInbound p now)) {t : Ledger}
    (h : ∀ i, ∀ f ∈ t.flows i, P f) (ev : Event) (i : UInt8) :
    ∀ f ∈ t.record ev i, P f := by
  cases ev with
  | packet p dir now =>
      rw [record]
      split_ifs
      · exact forall_update_upsert h _ (fun f => hin f p now) (hnew (newInbound p) rfl) i
      · exact forall_update_upsert h _ (fun f => hout f p now) (hnew (t.nat.newOutbound p) rfl) i
  | timeout now =>
      intro f hf
      exact h i f (List.mem_of_mem_filter hf)

/-- The rule for what is true of all flows of all runs: it holds before the first
packet of a mapping, and every packet keeps it. -/
theorem forall_flows_run {P : Flow → Prop} (hnew : ∀ m : NatMapping, m.conn = {} → P (.new m))
    (hout : ∀ f p now, P f → P (f.noteOutbound p now))
    (hin : ∀ f p now, P f → P (f.noteInbound p now)) (externalIface : IfaceInfo)
    (rules : List DnatRule) (events : List Event) (i : UInt8) :
    ∀ f ∈ (run externalIface rules events).flows i, P f := by
  have hall : ∀ i, ∀ f ∈ (run externalIface rules events).flows i, P f := by
    apply Transition.foldl_invariant (fun t : Ledger => ∀ i, ∀ f ∈ t.flows i, P f)
    · intro t ev h
      exact forall_record hnew hout hin h ev
    · intro i f hf
      exact absurd hf List.not_mem_nil
  exact hall i

end Ledger

end NetworkLabs
