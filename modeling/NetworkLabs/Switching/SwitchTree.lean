import NetworkLabs.Switching.Ageing
import NetworkLabs.Switching.HubTree

/-!
# Learning switches in a tree

The same network, with the switch of `main.c` and `mac.c` at each inner vertex. As long as no
sweep removes an entry, the switches that have heard a host all know the way to it, and every
frame comes to its destination exactly once, whatever the order in which they take the frames.

The switch does not compare the port of the destination with the one a frame came in on. What
keeps it from sending the frame back is that the links keep the order: a neighbour that has not
heard a host yet has not passed on any of its frames either. When an entry is swept out
at one switch and not at the next one, that is lost, and a frame goes back and forth.
-/

namespace NetworkLabs

namespace Switching

open TreeFlooding

variable {V : Type*} {lan : Lan V}

/-- The tables of all switches, and what is on the links. -/
structure SwitchNet (V : Type*) where
  tables : V → MacPortMap V
  traffic : Traffic V (Sending V)

inductive SwitchEvent (V : Type*) where
  | send (h : V) (frame : Frame)
  | receive (u v : V) (now : ℤ)
  | sweep (v : V) (now : ℤ)

namespace SwitchNet

def init : SwitchNet V where
  tables := fun _ => .init
  traffic := .empty

variable [DecidableEq V]

/-- What `handle_packet` does at the end of a link, if it is not a host. -/
def step (lan : Lan V) (net : SwitchNet V) : SwitchEvent V → SwitchNet V
  | .send h frame =>
      { net with
        traffic := net.traffic.inject h (lan.ustack h).ifaceList { host := h, frame := frame } }
  | .receive u v now =>
      match net.traffic.front u v with
      | none => net
      | some x =>
          if lan.host v then { net with traffic := net.traffic.pass u v x [] }
          else
            let handled := handlePacket (lan.ustack v) (net.tables v) u x.2.frame now
            { tables := Function.update net.tables v handled.1
              traffic := net.traffic.pass u v x
                (handled.2.map fun out => (out.1, { x.2 with frame := out.2 })) }
  | .sweep v now =>
      { net with
        tables := Function.update net.tables v ((net.tables v).sweepAgedMacPortEntry now).1 }

def run (lan : Lan V) (net : SwitchNet V) (events : List (SwitchEvent V)) : SwitchNet V :=
  events.foldl (step lan) net

end SwitchNet

/-- A host writes its own address into its frames, and sends none to itself. -/
def Sending.Honest (lan : Lan V) (m : Sending V) : Prop :=
  m.frame.etherShost = lan.mac m.host ∧ m.frame.etherDhost ≠ lan.mac m.host

/-- The host that a frame is for. -/
def Owns (lan : Lan V) (mac : Mac) (d : V) : Prop := lan.host d = true ∧ lan.mac d = mac

/-- A frame is for the owner of its destination, or for all hosts if nobody owns that. -/
def Addressed (lan : Lan V) (m : Sending V) (d : V) : Prop :=
  lan.host d = true ∧ (lan.mac d = m.frame.etherDhost ∨ ∀ h, ¬ Owns lan m.frame.etherDhost h)

/-- Hosts are honest, and a sweep removes nothing. -/
def Keeps (lan : Lan V) (net : SwitchNet V) : SwitchEvent V → Prop
  | .send h frame => lan.host h = true ∧ Sending.Honest lan { host := h, frame := frame }
  | .receive _ _ _ => True
  | .sweep v now => ((net.tables v).sweepAgedMacPortEntry now).2 = 0

/-! ## The invariant -/

/-- What holds as long as nothing is forgotten. -/
structure Consistent (lan : Lan V) (net : SwitchNet V) : Prop where
  flows : Flows lan.graph Sending.host (Addressed lan) (fun v => lan.host v = true) net.traffic
  honest : ∀ {n : ℕ} {m : Sending V}, net.traffic.injected[n]? = some m → m.Honest lan
  distinct : ∀ v, (net.tables v).Distinct
  heard : ∀ {u v x}, x ∈ net.traffic.received u v → lan.host v = false →
    (net.tables v).lookupPort (lan.mac x.2.host) ≠ none
  learned : ∀ {v mac q}, (net.tables v).lookupPort mac = some q →
    ∃ x ∈ net.traffic.received q v, lan.mac x.2.host = mac
  order : ∀ {u v d x before after}, net.traffic.sent u v = before ++ x :: after →
    lan.host u = false → Owns lan x.2.frame.etherDhost d → lan.graph.dist u d < lan.graph.dist v d →
    ∀ y ∈ before, y.2.host ≠ d

theorem consistent_init : Consistent lan SwitchNet.init where
  flows := flows_empty
  honest := by simp [SwitchNet.init, Traffic.empty]
  distinct := fun _ => MacPortMap.distinct_init
  heard := by simp [SwitchNet.init, Traffic.empty, Traffic.received]
  learned := by simp [SwitchNet.init, MacPortMap.lookupPort]
  order := by simp [SwitchNet.init, Traffic.empty]

/-- An address that is known has one owner at most. -/
theorem Owns.eq {mac : Mac} {d d' : V} (h : Owns lan mac d) (h' : Owns lan mac d') : d = d' :=
  lan.mac_inj d d' h.1 h'.1 (h.2.trans h'.2.symm)

namespace MacPortMap

variable {ι : Type*}

/-- A sweep that removes no entry leaves the table as it is. -/
theorem sweep_eq_self {map : MacPortMap ι} {now : ℤ}
    (h : (map.sweepAgedMacPortEntry now).2 = 0) : (map.sweepAgedMacPortEntry now).1 = map := by
  have hkept : (map.sweepAgedMacPortEntry now).1.hashTable = map.hashTable := by
    funext i
    have hcount : (sweepBucket now (map.hashTable i)).2 = 0 :=
      List.sum_eq_zero_iff.mp h _ (List.mem_map.mpr ⟨i, List.mem_finRange i, rfl⟩)
    rw [sweepBucket_eq, List.countP_eq_zero] at hcount
    rw [hashTable_sweep, List.filter_eq_self]
    intro e he
    rw [Bool.not_eq_true', Bool.eq_false_iff]
    exact hcount e he
  cases map with
  | mk hashTable placed =>
      change MacPortMap.mk _ _ = _
      congr

end MacPortMap

/-- After a frame its source is known too. -/
theorem lookupPort_handlePacket {ι : Type*} (ustack : Ustack ι) (map : MacPortMap ι) (iface : ι)
    (frame : Frame) (now : ℤ) (mac : Mac) :
    (handlePacket ustack map iface frame now).1.lookupPort mac =
      (map.lookupPort mac).or (if mac = frame.etherShost then some iface else none) := by
  cases hlookup : map.lookupPort frame.etherShost with
  | some q =>
      rw [handlePacket_fst_of_known ustack map iface frame now hlookup]
      by_cases hmac : mac = frame.etherShost
      · rw [hmac, hlookup, Option.some_or]
      · rw [if_neg hmac, Option.or_none]
  | none =>
      have hnew := (map.lookupPort_eq_none_iff _).mp hlookup
      rw [handlePacket_fst_of_unknown ustack map iface frame now hlookup, MacPortMap.lookupPort,
        map.findEntry_insertMacPort _ iface now hnew]
      by_cases hmac : mac = frame.etherShost
      · rw [hmac, hlookup, if_pos rfl, Function.update_self, Option.none_or, Option.map_some]
      · rw [if_neg hmac, Function.update_of_ne hmac, Option.or_none, MacPortMap.lookupPort]

/-- Every frame is sent as it has come. -/
theorem handlePacket_frame {ι : Type*} {ustack : Ustack ι} {map : MacPortMap ι} {iface : ι}
    {frame : Frame} {now : ℤ} {out : ι × Frame}
    (h : out ∈ (handlePacket ustack map iface frame now).2) : out.2 = frame := by
  cases hport : map.lookupPort frame.etherDhost with
  | some tx =>
      rw [handlePacket_snd_of_known hport, List.mem_singleton] at h
      rw [h]
  | none =>
      rw [handlePacket_snd_of_unknown hport] at h
      exact ((mem_broadcastPacket out).mp h).2.2

namespace Consistent

variable {net : SwitchNet V}

theorem host_source (h : Consistent lan net) {u v : V} {x : ℕ × Sending V}
    (hx : x ∈ net.traffic.sent u v) : lan.host x.2.host = true :=
  h.flows.leaf_source (h.flows.injected hx)

/-- A host has only sent frames of its own. -/
theorem eq_source (h : Consistent lan net) {u v : V} {x : ℕ × Sending V}
    (hx : x ∈ net.traffic.sent u v) (hu : lan.host u = true) : x.2.host = u := by
  by_contra hne
  obtain ⟨a, ha⟩ := h.flows.came hx (Ne.symm hne)
  have hsent := Traffic.mem_sent ha
  obtain rfl : a = v := lan.leaf u hu a v (h.flows.adj hsent).symm (h.flows.adj hx)
  exact absurd ((h.flows.away hsent).trans (h.flows.away hx)) (Nat.lt_irrefl _)

/-- The port of a host is the one towards it. -/
theorem toward (h : Consistent lan net) {v q d : V} {mac : Mac}
    (hport : (net.tables v).lookupPort mac = some q) (hd : Owns lan mac d) :
    lan.graph.Adj v q ∧ lan.graph.dist q d < lan.graph.dist v d := by
  obtain ⟨y, hy, hmac⟩ := h.learned hport
  have hsent := Traffic.mem_sent hy
  obtain rfl : y.2.host = d := Owns.eq ⟨h.host_source hsent, hmac⟩ hd
  exact ⟨(h.flows.adj hsent).symm, h.flows.away hsent⟩

/-- The owner of an address that has a port. -/
theorem owns_of_lookupPort (h : Consistent lan net) {v q : V} {mac : Mac}
    (hport : (net.tables v).lookupPort mac = some q) : ∃ d, Owns lan mac d := by
  obtain ⟨y, hy, hmac⟩ := h.learned hport
  exact ⟨y.2.host, h.host_source (Traffic.mem_sent hy), hmac⟩

/-- A frame that is first on a link is not for a host that is known behind this link: the
neighbour would have had to hear that host before. -/
theorem port_ne (h : Consistent lan net) {u v q : V} {x : ℕ × Sending V}
    (hfront : net.traffic.front u v = some x)
    (hport : (net.tables v).lookupPort x.2.frame.etherDhost = some q) : q ≠ u := by
  rintro rfl
  obtain ⟨hlt, hget⟩ := List.getElem?_eq_some_iff.mp hfront
  have hmem : x ∈ net.traffic.sent q v := hget ▸ List.getElem_mem hlt
  obtain ⟨y, hy, hmac⟩ := h.learned hport
  have hsent := Traffic.mem_sent hy
  cases hq : lan.host q with
  | true =>
      have hhonest := (h.honest (h.flows.injected hmem)).2
      rw [h.eq_source hsent hq] at hmac
      rw [h.eq_source hmem hq] at hhonest
      exact hhonest hmac.symm
  | false =>
      have hsplit : net.traffic.sent q v = net.traffic.received q v ++
          x :: (net.traffic.sent q v).drop (net.traffic.taken q v + 1) := by
        rw [← hget, Traffic.received, ← List.drop_eq_getElem_cons hlt, List.take_append_drop]
      exact h.order hsplit hq ⟨h.host_source hsent, hmac⟩ (h.flows.away hsent) y hy rfl

/-- The links on which a switch sends a frame. It leaves out none that leads to a target. -/
theorem handles (h : Consistent lan net) {u v : V} {x : ℕ × Sending V}
    (hfront : net.traffic.front u v = some x) (now : ℤ) {outs : List V}
    (houts : outs = (handlePacket (lan.ustack v) (net.tables v) u x.2.frame now).2.map Prod.fst) :
    outs.Nodup ∧ (∀ w ∈ outs, lan.graph.Adj v w ∧ w ≠ u) ∧
      ∀ d w, Addressed lan x.2 d → lan.graph.Adj v w → lan.graph.dist w d < lan.graph.dist v d →
        w ≠ u → w ∈ outs := by
  have hadj : lan.graph.Adj v u := (h.flows.adj (List.mem_of_getElem? hfront)).symm
  cases hport : (net.tables v).lookupPort x.2.frame.etherDhost with
  | none =>
      rw [handlePacket_snd_of_unknown hport] at houts
      subst houts
      have hmem := lan.mem_broadcastPacket_iff hadj x.2.frame
      exact ⟨nodup_broadcastPacket (lan.index_nodup v), fun w hw => (hmem w).mp hw,
        fun d w _ hw _ hne => (hmem w).mpr ⟨hw, hne⟩⟩
  | some q =>
      rw [handlePacket_snd_of_known hport, List.map_singleton] at houts
      subst houts
      obtain ⟨d', hd'⟩ := h.owns_of_lookupPort hport
      have hq := h.toward hport hd'
      refine ⟨List.nodup_singleton q, fun w hw => ?_, fun d w hd hw hlt _ => ?_⟩
      · obtain rfl := List.mem_singleton.mp hw
        exact ⟨hq.1, h.port_ne hfront hport⟩
      · rcases hd.2 with hmac | hnobody
        · obtain rfl : d = d' := Owns.eq ⟨hd.1, hmac⟩ hd'
          exact List.mem_singleton.mpr (eq_of_dist_lt lan.isTree hw hq.1 hlt hq.2)
        · exact absurd hd' (hnobody d')

end Consistent

/-! ## What a step preserves -/

section

variable [DecidableEq V] {net : SwitchNet V}

/-- A frame of a host of its own. -/
theorem Consistent.send (h : Consistent lan net) {v : V} {frame : Frame}
    (hv : lan.host v = true) (hhonest : Sending.Honest lan { host := v, frame := frame }) :
    Consistent lan (net.step lan (.send v frame)) := by
  have hnodup := lan.nodup_ifaceList v
  have hreceived : ∀ a b, (net.traffic.inject v (lan.ustack v).ifaceList
      { host := v, frame := frame }).received a b = net.traffic.received a b := fun a b =>
    Traffic.received_inject (h.flows.taken_le a b) v hnodup _
  refine ⟨?_, fun {n m} hn => ?_, h.distinct, fun {a b x} hx => ?_, fun {b mac q} hport => ?_,
    fun {a b d x before after} hsplit ha => ?_⟩
  · have hleaf : lan.host (Sending.host ⟨v, frame⟩) = true := hv
    exact h.flows.inject hleaf hnodup (lan.mem_ifaceList v)
  · change (net.traffic.injected ++ [_])[n]? = some m at hn
    rcases List.mem_append.mp (List.mem_of_getElem? hn) with hm | hm
    · obtain ⟨k, hk⟩ := List.mem_iff_getElem?.mp hm
      exact h.honest hk
    · rw [List.mem_singleton.mp hm]
      exact hhonest
  · change x ∈ (net.traffic.inject v (lan.ustack v).ifaceList _).received a b at hx
    rw [hreceived] at hx
    exact h.heard hx
  · obtain ⟨y, hy, hmac⟩ := h.learned hport
    refine ⟨y, ?_, hmac⟩
    change y ∈ (net.traffic.inject v (lan.ustack v).ifaceList _).received q b
    rwa [hreceived]
  · have hne : a ≠ v := by
      rintro rfl
      exact absurd (hv.symm.trans ha) (by decide)
    change Traffic.push net.traffic.sent v _ _ a b = _ at hsplit
    rw [Traffic.push_of_ne _ hne] at hsplit
    exact h.order hsplit ha

/-- A host takes a frame. -/
theorem Consistent.take (h : Consistent lan net) {u v : V} {x : ℕ × Sending V}
    (hfront : net.traffic.front u v = some x) (hv : lan.host v = true) :
    Consistent lan { net with traffic := net.traffic.relay u v x [] } := by
  have hreceived : ∀ a b, (net.traffic.relay u v x []).received a b =
      net.traffic.received a b ++ if a = u ∧ b = v then [x] else [] :=
    Traffic.received_relay h.flows.taken_le hfront List.nodup_nil
  have hsent : (net.traffic.relay u v x []).sent = net.traffic.sent := Function.update_eq_self v _
  refine ⟨?_, h.honest, h.distinct, fun {a b y} hy hb => ?_, fun {b mac q} hport => ?_,
    fun hsplit => ?_⟩
  · exact h.flows.relay lan.isTree hfront List.nodup_nil (by simp) fun hnot => absurd hv hnot
  · have hne : b ≠ v := by
      rintro rfl
      exact absurd (hv.symm.trans hb) (by decide)
    change y ∈ (net.traffic.relay u v x []).received a b at hy
    rw [hreceived, if_neg (fun hab => hne hab.2), List.append_nil] at hy
    exact h.heard hy hb
  · obtain ⟨y, hy, hmac⟩ := h.learned hport
    refine ⟨y, ?_, hmac⟩
    change y ∈ (net.traffic.relay u v x []).received q b
    rw [hreceived]
    exact List.mem_append_left _ hy
  · change (net.traffic.relay u v x []).sent _ _ = _ at hsplit
    rw [hsent] at hsplit
    exact h.order hsplit

/-- A switch takes a frame, learns its source and sends it on. -/
theorem Consistent.handle (h : Consistent lan net) {u v : V} {x : ℕ × Sending V}
    (hfront : net.traffic.front u v = some x) (hv : lan.host v = false) (now : ℤ) :
    let handled := handlePacket (lan.ustack v) (net.tables v) u x.2.frame now
    Consistent lan { tables := Function.update net.tables v handled.1
                     traffic := net.traffic.relay u v x (handled.2.map Prod.fst) } := by
  intro handled
  obtain ⟨hnodup, hadj, htarget⟩ := h.handles hfront now rfl
  have hmem : x ∈ net.traffic.sent u v := List.mem_of_getElem? hfront
  have hown : x.2.frame.etherShost = lan.mac x.2.host := (h.honest (h.flows.injected hmem)).1
  have hlookup : ∀ mac, handled.1.lookupPort mac = ((net.tables v).lookupPort mac).or
      (if mac = x.2.frame.etherShost then some u else none) :=
    lookupPort_handlePacket (lan.ustack v) (net.tables v) u x.2.frame now
  have hreceived : ∀ a b, (net.traffic.relay u v x (handled.2.map Prod.fst)).received a b =
      net.traffic.received a b ++ if a = u ∧ b = v then [x] else [] :=
    Traffic.received_relay h.flows.taken_le hfront hnodup
  have hdistinct : handled.1.Distinct :=
    distinct_step (lan.ustack v) (net.tables v) (.frame u x.2.frame now) (h.distinct v)
  refine ⟨h.flows.relay lan.isTree hfront hnodup hadj fun _ => htarget, h.honest, ?_,
    fun {a b y} hy hb => ?_, fun {b mac q} hport => ?_,
    fun {a b d z before after} hsplit ha hd hlt y hy => ?_⟩
  · exact (Function.forall_update_iff net.tables fun _ map => map.Distinct).mpr
      ⟨hdistinct, fun b _ => h.distinct b⟩
  · change (Function.update net.tables v handled.1 b).lookupPort _ ≠ none
    change y ∈ (net.traffic.relay u v x (handled.2.map Prod.fst)).received a b at hy
    rw [hreceived, List.mem_append] at hy
    by_cases hbv : b = v
    · subst hbv
      rw [Function.update_self, hlookup, ne_eq, Option.or_eq_none_iff, not_and_or]
      rcases hy with hy | hy
      · exact Or.inl (h.heard hy hb)
      · split_ifs at hy with hab
        · rw [List.mem_singleton.mp hy, ← hown, if_pos rfl]
          exact Or.inr (by simp)
        · exact absurd hy List.not_mem_nil
    · rw [if_neg fun hab => hbv hab.2] at hy
      rw [Function.update_of_ne hbv]
      exact h.heard (hy.resolve_right List.not_mem_nil) hb
  · change (Function.update net.tables v handled.1 b).lookupPort mac = some q at hport
    change ∃ y ∈ (net.traffic.relay u v x (handled.2.map Prod.fst)).received q b, _
    have hold : (net.tables b).lookupPort mac = some q →
        ∃ y ∈ (net.traffic.relay u v x (handled.2.map Prod.fst)).received q b,
          lan.mac y.2.host = mac := by
      intro hknown
      obtain ⟨y, hy, hmac⟩ := h.learned hknown
      exact ⟨y, by rw [hreceived]; exact List.mem_append_left _ hy, hmac⟩
    by_cases hbv : b = v
    · subst hbv
      rw [Function.update_self, hlookup, Option.or_eq_some_iff] at hport
      rcases hport with hknown | ⟨-, hnew⟩
      · exact hold hknown
      · split_ifs at hnew with hmac
        obtain rfl := Option.some.inj hnew
        refine ⟨x, ?_, hown ▸ hmac.symm⟩
        rw [hreceived, if_pos ⟨rfl, rfl⟩]
        exact List.mem_append_right _ (List.mem_singleton_self x)
    · rw [Function.update_of_ne hbv] at hport
      exact hold hport
  · change Traffic.push net.traffic.sent v _ x a b = _ at hsplit
    by_cases hav : a = v
    · subst hav
      rw [Traffic.push_self _ _ hnodup] at hsplit
      split_ifs at hsplit with hb
      · rcases List.eq_nil_or_concat' after with rfl | ⟨after', z', rfl⟩
        · -- The new frame. Its destination is not known, so nothing has come from there.
          obtain ⟨rfl, hx⟩ := List.append_inj' hsplit rfl
          obtain rfl : x = z := by simpa using hx
          rintro rfl
          have hne : a ≠ y.2.host := by
            rintro rfl
            exact absurd (hv.symm.trans hd.1) (by decide)
          obtain ⟨c, hc⟩ := h.flows.came hy hne
          obtain ⟨q, hq⟩ := Option.ne_none_iff_exists'.mp (h.heard hc hv)
          rw [hd.2] at hq
          have hsnd : handled.2 = [(q, x.2.frame)] := handlePacket_snd_of_known hq now
          rw [hsnd, List.map_singleton, List.mem_singleton] at hb
          subst hb
          exact absurd (hlt.trans (h.toward hq hd).2) (Nat.lt_irrefl _)
        · rw [← List.cons_append, ← List.append_assoc] at hsplit
          exact h.order (List.append_inj' hsplit rfl).1 ha hd hlt y hy
      · rw [List.append_nil] at hsplit
        exact h.order hsplit ha hd hlt y hy
    · rw [Traffic.push_of_ne _ hav] at hsplit
      exact h.order hsplit ha hd hlt y hy

theorem Consistent.step (h : Consistent lan net) {e : SwitchEvent V} (he : Keeps lan net e) :
    Consistent lan (net.step lan e) := by
  cases e with
  | send v frame => exact h.send he.1 he.2
  | receive u v now =>
      rw [SwitchNet.step]
      cases hfront : net.traffic.front u v with
      | none => exact h
      | some x =>
          by_cases hv : lan.host v = true
          · simp only [hv, if_true]
            exact h.take hfront hv
          · simp only [hv]
            rw [if_neg Bool.false_ne_true, pass_sending _ u v fun out => handlePacket_frame]
            exact h.handle hfront (Bool.eq_false_iff.mpr hv) now
  | sweep v now =>
      rw [SwitchNet.step, MacPortMap.sweep_eq_self he, Function.update_eq_self]
      exact h

end

/-! ## Runs -/

/-- What is meant to come of the frames, and of the tables: a switch that has taken a frame of a
host has a port for it, and each port is the one towards its host. -/
structure Switches [DecidableEq V] (lan : Lan V) (net : SwitchNet V) : Prop where
  delivers : Delivers (Addressed lan) net.traffic
  learns : ∀ u v x, x ∈ net.traffic.received u v → lan.host v = false →
    ∃ q, (net.tables v).lookupPort (lan.mac x.2.host) = some q
  toward : ∀ v d q, lan.host d = true → (net.tables v).lookupPort (lan.mac d) = some q →
    lan.graph.Adj v q ∧ lan.graph.dist q d < lan.graph.dist v d

variable [DecidableEq V]

/-- In every run in which no entry is swept out, frames come to their destination, and only
once. -/
theorem switchRun_switches (lan : Lan V) (events : List (SwitchEvent V))
    (h : Transition.Along (SwitchNet.step lan) (Keeps lan) .init events) :
    Switches lan (SwitchNet.run lan .init events) := by
  have hall : Consistent lan (SwitchNet.run lan .init events) :=
    h.invariant (Consistent lan) (fun _ _ hnet he => hnet.step he) _ _ consistent_init
  exact {
    delivers := Delivers.of_flows hall.flows
    learns := fun _ _ _ hx hv => Option.ne_none_iff_exists'.mp (hall.heard hx hv)
    toward := fun _ _ _ hd hport => hall.toward hport ⟨hd, rfl⟩ }

/-- Two hosts at one switch, with a sweep in time. -/
theorem switchRun_switches_two : Switches twoSwitches (SwitchNet.run twoSwitches .init
    [.send 3 (hostFrame 3 4), .receive 3 0 0, .receive 0 1 5, .sweep 0 30,
      .send 2 (hostFrame 2 3), .receive 2 0 30, .receive 0 3 30]) := by
  refine switchRun_switches twoSwitches _ ⟨⟨rfl, ?_⟩, trivial, trivial, ?_, ⟨rfl, ?_⟩, trivial,
    trivial, trivial⟩
  · exact ⟨rfl, by decide⟩
  · change (MacPortMap.sweepAgedMacPortEntry _ 30).2 = 0
    decide +kernel
  · exact ⟨rfl, by decide⟩

/-- One switch has forgotten a host, and the other one has not. A frame for it is sent back to
the first switch, and comes to the host that has sent it. -/
theorem not_switches_swept : ¬ Switches twoSwitches (SwitchNet.run twoSwitches .init
    [.send 3 (hostFrame 3 4), .receive 3 0 0, .receive 0 1 5, .sweep 0 31, .sweep 1 31,
      .send 2 (hostFrame 2 3), .receive 2 0 31, .receive 0 1 31, .receive 1 0 31,
      .receive 0 2 31, .receive 0 2 31]) := by
  intro h
  have hback : (2 : Fin 5) ∈ ((SwitchNet.run twoSwitches .init
      [.send 3 (hostFrame 3 4), .receive 3 0 0, .receive 0 1 5, .sweep 0 31, .sweep 1 31,
        .send 2 (hostFrame 2 3), .receive 2 0 31, .receive 0 1 31, .receive 1 0 31,
        .receive 0 2 31, .receive 0 2 31]).traffic.received 0 2).map fun x => x.2.host := by
    decide +kernel
  obtain ⟨x, hx, hhost⟩ := List.mem_map.mp hback
  exact h.delivers.not_back 0 2 x hx hhost

end Switching

end NetworkLabs
