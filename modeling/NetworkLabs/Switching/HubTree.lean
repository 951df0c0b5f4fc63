import NetworkLabs.Library.TreeFlooding
import NetworkLabs.Switching.ForwardingSet

/-!
# Hubs in a tree

Hosts and hubs, or switches, that are linked to a tree. An interface is known by what is at
the other end of its link. The links keep the order of the frames, and what happens at the two
ends of a link is interleaved in any way.

A hub sends each frame to all the others, as `main.c` of the broadcast network does. No frame
then crosses a link twice, and each comes to every other host once.
-/

namespace NetworkLabs

namespace Switching

open TreeFlooding

/-- A network without loops. Hosts have one link, and each has an address of its own. -/
structure Lan (V : Type*) where
  graph : SimpleGraph V
  isTree : graph.IsTree
  host : V → Bool
  mac : V → Mac
  ustack : V → Ustack V
  mem_ifaceList : ∀ v w, w ∈ (ustack v).ifaceList ↔ graph.Adj v w
  index_nodup : ∀ v, ((ustack v).ifaceList.map (ustack v).index).Nodup
  leaf : ∀ v, host v = true → ∀ w w', graph.Adj v w → graph.Adj v w' → w = w'
  mac_inj : ∀ v w, host v = true → host w = true → mac v = mac w → v = w

/-- A frame, and the host that has sent it. -/
structure Sending (V : Type*) where
  host : V
  frame : Frame

variable {V : Type*} {lan : Lan V}

namespace Lan

theorem nodup_ifaceList (lan : Lan V) (v : V) : (lan.ustack v).ifaceList.Nodup :=
  (lan.index_nodup v).of_map _

/-- The links on which a frame is broadcast. -/
theorem mem_broadcastPacket_iff (lan : Lan V) {u v : V} (hu : lan.graph.Adj v u) (frame : Frame)
    (w : V) : w ∈ (broadcastPacket (lan.ustack v) u frame).map Prod.fst ↔
      lan.graph.Adj v w ∧ w ≠ u := by
  rw [List.mem_map]
  constructor
  · rintro ⟨out, hout, rfl⟩
    obtain ⟨hmem, hne, -⟩ := (mem_broadcastPacket out).mp hout
    exact ⟨(lan.mem_ifaceList v _).mp hmem,
      (index_ne_iff (lan.index_nodup v) ((lan.mem_ifaceList v u).mpr hu) hmem).mp hne⟩
  · rintro ⟨hw, hne⟩
    have hmem := (lan.mem_ifaceList v w).mpr hw
    exact ⟨(w, frame), (mem_broadcastPacket _).mpr ⟨hmem,
      (index_ne_iff (lan.index_nodup v) ((lan.mem_ifaceList v u).mpr hu) hmem).mpr hne, rfl⟩, rfl⟩

end Lan

/-- What is meant to come of the frames that the hosts send, whatever the targets of each
are. -/
structure Delivers (target : Sending V → V → Prop) (t : Traffic V (Sending V)) : Prop where
  intact : ∀ u v x, x ∈ t.received u v → t.injected[x.1]? = some x.2
  not_back : ∀ u v x, x ∈ t.received u v → x.2.host ≠ v
  once : ∀ u u' v x y, x ∈ t.received u v → y ∈ t.received u' v → x.1 = y.1 → u = u'
  nodup : ∀ u v, ((t.received u v).map Prod.fst).Nodup
  no_storm : ∀ u v, (t.sent u v).length ≤ t.injected.length
  arrives : t.Quiet → ∀ n m d, t.injected[n]? = some m → target m d → m.host ≠ d →
    ∃ u, (n, m) ∈ t.received u d

/-- A run on a tree delivers. -/
theorem Delivers.of_flows {target : Sending V → V → Prop} {t : Traffic V (Sending V)}
    (h : Flows lan.graph Sending.host target (fun v => lan.host v = true) t) :
    Delivers target t where
  intact := fun _ _ _ hx => h.injected (Traffic.mem_sent hx)
  not_back := fun _ _ _ hx => (h.ne_source (Traffic.mem_sent hx)).symm
  once := fun _ _ _ _ _ hx hy heq => (h.received_once lan.isTree hx hy heq).2
  nodup := h.nodup_received
  no_storm := by
    intro u v
    have hrange : (t.sent u v).map Prod.fst ⊆ List.range t.injected.length := by
      intro n hn
      obtain ⟨x, hx, rfl⟩ := List.mem_map.mp hn
      exact List.mem_range.mpr (h.fst_lt hx)
    have hle := (h.nodup u v).subperm hrange
    simpa using hle.length_le
  arrives := by
    classical
    intro hquiet n m d hn hd hne
    exact h.arrives lan.isTree lan.leaf hquiet hn hd hne

/-! ## Hubs -/

/-- A host sends a frame, or a frame is taken from the link from `u` to `v`. -/
inductive HubEvent (V : Type*) where
  | send (h : V) (frame : Frame)
  | receive (u v : V)

variable [DecidableEq V]

/-- What happens to the links. A host sends nothing on. -/
def hubStep (lan : Lan V) (t : Traffic V (Sending V)) : HubEvent V → Traffic V (Sending V)
  | .send h frame => t.inject h (lan.ustack h).ifaceList { host := h, frame := frame }
  | .receive u v =>
      match t.front u v with
      | none => t
      | some x =>
          let sent := if lan.host v then [] else broadcastPacket (lan.ustack v) u x.2.frame
          t.pass u v x (sent.map fun out => (out.1, { x.2 with frame := out.2 }))

def hubRun (lan : Lan V) (events : List (HubEvent V)) : Traffic V (Sending V) :=
  events.foldl (hubStep lan) Traffic.empty

/-- Only hosts send frames of their own. -/
def HubEvent.FromHost (lan : Lan V) : HubEvent V → Prop
  | .send h _ => lan.host h = true
  | .receive _ _ => True

/-- A frame that is sent as it has come is the same on the next links. -/
theorem pass_sending (t : Traffic V (Sending V)) (u v : V) {x : ℕ × Sending V}
    {sent : List (V × Frame)} (h : ∀ out ∈ sent, out.2 = x.2.frame) :
    t.pass u v x (sent.map fun out => (out.1, { x.2 with frame := out.2 })) =
      t.relay u v x (sent.map Prod.fst) := by
  rw [Traffic.pass_eq_relay, List.map_map]
  · rfl
  · intro out hout
    obtain ⟨out', hout', rfl⟩ := List.mem_map.mp hout
    change Sending.mk x.2.host out'.2 = x.2
    rw [h out' hout']

/-- Every frame is for all the other hosts. -/
def ForAll (lan : Lan V) (_ : Sending V) (d : V) : Prop := lan.host d = true

theorem flows_hubStep {t : Traffic V (Sending V)}
    (h : Flows lan.graph Sending.host (ForAll lan) (fun v => lan.host v = true) t)
    {e : HubEvent V} (he : e.FromHost lan) :
    Flows lan.graph Sending.host (ForAll lan) (fun v => lan.host v = true) (hubStep lan t e) := by
  cases e with
  | send v frame =>
      have hleaf : lan.host (Sending.host ⟨v, frame⟩) = true := he
      exact h.inject hleaf (lan.nodup_ifaceList v) (lan.mem_ifaceList v)
  | receive u v =>
      rw [hubStep]
      cases hfront : t.front u v with
      | none => exact h
      | some x =>
          have hadj : lan.graph.Adj v u := (h.adj (List.mem_of_getElem? hfront)).symm
          by_cases hv : lan.host v = true
          · simp only [hv, if_true, List.map_nil]
            exact h.relay lan.isTree hfront List.nodup_nil (by simp) fun hnot => absurd hv hnot
          · simp only [hv]
            have hframe : ∀ out ∈ broadcastPacket (lan.ustack v) u x.2.frame, out.2 = x.2.frame :=
              fun out hout => ((mem_broadcastPacket out).mp hout).2.2
            rw [if_neg Bool.false_ne_true, pass_sending _ u v hframe]
            have hmem := lan.mem_broadcastPacket_iff hadj x.2.frame
            exact h.relay lan.isTree hfront (nodup_broadcastPacket (lan.index_nodup v))
              (fun w hw => (hmem w).mp hw) fun _ d w _ hw _ hne => (hmem w).mpr ⟨hw, hne⟩

/-- In every run hubs bring each frame to all the other hosts, and only once. -/
theorem hubRun_delivers (lan : Lan V) (events : List (HubEvent V))
    (h : ∀ e ∈ events, e.FromHost lan) : Delivers (ForAll lan) (hubRun lan events) := by
  have hall : Flows lan.graph Sending.host (ForAll lan) (fun v => lan.host v = true)
      (hubRun lan events) := by
    induction events using List.reverseRecOn with
    | nil => exact flows_empty
    | append_singleton events e ih =>
        have hih := ih fun e he => h e (List.mem_append_left _ he)
        rw [hubRun, List.foldl_append]
        exact flows_hubStep hih (h e (List.mem_append_right _ (List.mem_singleton_self e)))
  exact Delivers.of_flows hall

/-! ## Two switches -/

/-- The neighbours of each vertex: two switches, with two hosts at the first and one at the
second. -/
def twoLinks : Fin 5 → List (Fin 5)
  | 0 => [1, 2, 3]
  | 1 => [0, 4]
  | 2 => [0]
  | 3 => [0]
  | 4 => [1]

def twoGraph : SimpleGraph (Fin 5) where
  Adj := fun v w => w ∈ twoLinks v
  symm := ⟨by decide⟩
  loopless := ⟨by decide⟩

instance : DecidableRel twoGraph.Adj := fun v w => inferInstanceAs (Decidable (w ∈ twoLinks v))

theorem isTree_twoGraph : twoGraph.IsTree := by
  have hadj : ∀ v w, w ∈ twoLinks v → twoGraph.Reachable v w := fun _ _ h =>
    SimpleGraph.Adj.reachable h
  have hfour : twoGraph.Reachable 0 4 := (hadj 0 1 (by decide)).trans (hadj 1 4 (by decide))
  rw [SimpleGraph.isTree_iff_connected_and_card]
  refine ⟨(twoGraph.connected_iff_exists_forall_reachable).mpr ⟨0, fun w => ?_⟩, ?_⟩
  · fin_cases w
    · exact SimpleGraph.Reachable.refl 0
    · exact hadj 0 1 (by decide)
    · exact hadj 0 2 (by decide)
    · exact hadj 0 3 (by decide)
    · exact hfour
  · rw [Nat.card_eq_fintype_card, Nat.card_eq_fintype_card, ← SimpleGraph.edgeFinset_card]
    decide +kernel

def twoSwitches : Lan (Fin 5) where
  graph := twoGraph
  isTree := isTree_twoGraph
  host := fun v => 2 ≤ v
  mac := fun v => Vector.replicate ETH_ALEN (UInt8.ofNat v.val)
  ustack := fun v => { ifaceList := twoLinks v, index := fun w => w.val }
  mem_ifaceList := fun _ _ => Iff.rfl
  index_nodup := by decide
  leaf := by decide
  mac_inj := by decide

/-- The first host sends a frame, and each hub takes it. -/
theorem hubRun_delivers_two : Delivers (ForAll twoSwitches)
    (hubRun twoSwitches [.send 2 (hostFrame 2 4), .receive 2 0, .receive 0 1]) := by
  refine hubRun_delivers twoSwitches _ fun e he => ?_
  fin_cases he
  · rfl
  · trivial
  · trivial

end Switching

end NetworkLabs
