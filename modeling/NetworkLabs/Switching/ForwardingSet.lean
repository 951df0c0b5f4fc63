import NetworkLabs.Switching.LearnedPorts

/-!
# Where a frame is sent

A frame goes out on the interface of its destination, or on all interfaces but the
one it came in on. The second case compares the interfaces, and the first one does
not: when a host sends to another one behind the same interface, and the switch knows
it, the frame is sent back to where it came from.
-/

namespace NetworkLabs

namespace Switching

variable {ι : Type*}

/-- What is meant to be sent for a frame that has come in on an interface. -/
structure ForwardsWell (ustack : Ustack ι) (map : MacPortMap ι) (iface : ι) (frame : Frame)
    (sent : List (ι × Frame)) : Prop where
  known : ∀ tx, map.lookupPort frame.etherDhost = some tx → tx ≠ iface → sent = [(tx, frame)]
  local_host : map.lookupPort frame.etherDhost = some iface → sent = []
  unknown : map.lookupPort frame.etherDhost = none → (sent.map Prod.fst).Nodup ∧
    ∀ out, out ∈ sent ↔ out.1 ∈ ustack.ifaceList ∧ out.1 ≠ iface ∧ out.2 = frame
  not_back : ∀ frame', (iface, frame') ∉ sent

section

variable {ustack : Ustack ι} {map : MacPortMap ι} {iface : ι} {frame : Frame}

theorem mem_broadcastPacket (out : ι × Frame) : out ∈ broadcastPacket ustack iface frame ↔
    out.1 ∈ ustack.ifaceList ∧ ustack.index out.1 ≠ ustack.index iface ∧ out.2 = frame := by
  rw [broadcastPacket, List.mem_map]
  constructor
  · rintro ⟨tx, htx, rfl⟩
    obtain ⟨hmem, hne⟩ := List.mem_filter.mp htx
    exact ⟨hmem, bne_iff_ne.mp hne, rfl⟩
  · rintro ⟨hmem, hne, rfl⟩
    exact ⟨out.1, List.mem_filter.mpr ⟨hmem, bne_iff_ne.mpr hne⟩, rfl⟩

/-- Where the indices are distinct they tell the interfaces apart. -/
theorem index_ne_iff (hindex : (ustack.ifaceList.map ustack.index).Nodup)
    (hiface : iface ∈ ustack.ifaceList) {tx : ι} (htx : tx ∈ ustack.ifaceList) :
    ustack.index tx ≠ ustack.index iface ↔ tx ≠ iface := by
  rw [not_iff_not]
  exact ⟨List.inj_on_of_nodup_map hindex htx hiface, congrArg ustack.index⟩

/-- A broadcast reaches all the other interfaces, once. -/
theorem nodup_broadcastPacket (hindex : (ustack.ifaceList.map ustack.index).Nodup) :
    ((broadcastPacket ustack iface frame).map Prod.fst).Nodup := by
  rw [broadcastPacket, List.map_map]
  change ((ustack.ifaceList.filter _).map id).Nodup
  rw [List.map_id]
  exact (List.Nodup.of_map _ hindex).filter _

theorem handlePacket_snd_of_known {tx : ι} (h : map.lookupPort frame.etherDhost = some tx)
    (now : ℤ) : (handlePacket ustack map iface frame now).2 = [(tx, frame)] := by
  rw [handlePacket, h]

theorem handlePacket_snd_of_unknown (h : map.lookupPort frame.etherDhost = none) (now : ℤ) :
    (handlePacket ustack map iface frame now).2 = broadcastPacket ustack iface frame := by
  rw [handlePacket, h]

/-- A frame is sent as it should be unless its destination is known behind the interface
it has come in on. -/
theorem forwardsWell_iff (hindex : (ustack.ifaceList.map ustack.index).Nodup)
    (hiface : iface ∈ ustack.ifaceList) (map : MacPortMap ι) (frame : Frame) (now : ℤ) :
    ForwardsWell ustack map iface frame (handlePacket ustack map iface frame now).2 ↔
      map.lookupPort frame.etherDhost ≠ some iface := by
  constructor
  · intro h hself
    have hback := h.not_back frame
    rw [handlePacket_snd_of_known hself] at hback
    exact hback List.mem_cons_self
  · intro hne
    cases hlookup : map.lookupPort frame.etherDhost with
    | some tx =>
        rw [hlookup, ne_eq, Option.some.injEq] at hne
        rw [handlePacket_snd_of_known hlookup]
        exact {
          known := by
            intro tx' htx' _
            rw [Option.some.inj (hlookup.symm.trans htx')]
          local_host := fun hself => absurd (Option.some.inj (hlookup.symm.trans hself)) hne
          unknown := fun hnone => absurd (hlookup.symm.trans hnone) (by simp)
          not_back := by
            intro frame' hmem
            exact hne (congrArg Prod.fst (List.mem_singleton.mp hmem)).symm }
    | none =>
        rw [handlePacket_snd_of_unknown hlookup]
        have hmem : ∀ out, out ∈ broadcastPacket ustack iface frame ↔
            out.1 ∈ ustack.ifaceList ∧ out.1 ≠ iface ∧ out.2 = frame := by
          intro out
          rw [mem_broadcastPacket]
          exact and_congr_right fun hout => and_congr_left' (index_ne_iff hindex hiface hout)
        exact {
          known := fun tx htx => absurd (hlookup.symm.trans htx) (by simp)
          local_host := fun hself => absurd (hlookup.symm.trans hself) (by simp)
          unknown := fun _ => ⟨nodup_broadcastPacket hindex, hmem⟩
          not_back := fun frame' hout => ((hmem _).mp hout).2.1 rfl }

end

/-! ## Runs -/

/-- An event is as it should be if the frame that it brings is sent as it should be. -/
def Forwards (ustack : Ustack ι) (map : MacPortMap ι) : Event ι → Prop
  | .frame iface frame now =>
      ForwardsWell ustack map iface frame (handlePacket ustack map iface frame now).2
  | .sweep _ => True

/-- The destination of the frame is not known behind the interface it comes in on. -/
def NotBehindIngress (map : MacPortMap ι) : Event ι → Prop
  | .frame iface frame _ => map.lookupPort frame.etherDhost ≠ some iface
  | .sweep _ => True

/-- A frame comes in on one of the interfaces. -/
def Event.ComesIn (ustack : Ustack ι) : Event ι → Prop
  | .frame iface _ _ => iface ∈ ustack.ifaceList
  | .sweep _ => True

/-- In a run of a switch whose interfaces have distinct indices, each frame is sent as it
should be exactly if its destination is not known behind its own interface. -/
theorem run_forwards_iff (ustack : Ustack ι) (hindex : (ustack.ifaceList.map ustack.index).Nodup)
    (events : List (Event ι)) (e : Event ι) (he : e.ComesIn ustack) :
    Forwards ustack (run ustack .init events) e ↔
      NotBehindIngress (run ustack .init events) e := by
  cases e with
  | frame iface frame now => exact forwardsWell_iff hindex he _ frame now
  | sweep now => exact Iff.rfl

/-- A switch with two interfaces. -/
def twoPorts : Ustack Bool where
  ifaceList := [false, true]
  index := fun iface => if iface then 1 else 0

/-- A frame for a host that is known behind the other interface. -/
theorem run_forwards_iff_otherPort : Forwards twoPorts
    (run twoPorts .init [.frame false (hostFrame 1 2) 0]) (.frame true (hostFrame 2 1) 1) := by
  refine (run_forwards_iff twoPorts (by decide) [.frame false (hostFrame 1 2) 0]
    (.frame true (hostFrame 2 1) 1) (List.mem_cons_of_mem _ List.mem_cons_self)).mpr ?_
  change MacPortMap.lookupPort _ _ ≠ some true
  decide +kernel

/-- Two hosts behind one interface: what one of them sends to the other comes back. -/
theorem not_forwards_samePort :
    ¬ ∀ (ustack : Ustack Bool) (events : List (Event Bool)) (e : Event Bool),
      (ustack.ifaceList.map ustack.index).Nodup → e.ComesIn ustack →
      Forwards ustack (run ustack .init events) e := by
  intro h
  have hback := (h twoPorts [.frame false (hostFrame 2 1) 0] (.frame false (hostFrame 1 2) 1)
    (by decide) List.mem_cons_self).not_back (hostFrame 1 2)
  have hknown : (run twoPorts .init [.frame false (hostFrame 2 1) 0]).lookupPort
      (hostFrame 1 2).etherDhost = some false := by decide +kernel
  rw [handlePacket_snd_of_known hknown] at hback
  exact hback List.mem_cons_self

end Switching

end NetworkLabs
