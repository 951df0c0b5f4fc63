import Mathlib

/-!
# Flooding on a tree

Messages travel between the vertices of a tree, over links that keep their order. A vertex
that takes a message from a link sends it on over some of its other links, and the leaves send
messages of their own. As nothing goes back over the link on which it has come, a message moves
away from its source, and no link carries it twice.

Each message has targets. If a vertex never leaves out the link towards a target, then the
message has come to each of its targets once, when all links are empty.
-/

namespace TreeFlooding

variable {V μ : Type*}

/-! ## Trees -/

section

variable {G : SimpleGraph V}

/-- Of two neighbours one is closer to any vertex. -/
theorem dist_lt_or_lt (hG : G.IsTree) {v w : V} (hadj : G.Adj v w) (d : V) :
    G.dist v d < G.dist w d ∨ G.dist w d < G.dist v d := by
  rcases hG.dist_eq_dist_add_one_of_adj d hadj with h | h
  · rw [G.dist_comm, G.dist_comm (u := d) (v := w)] at h
    exact Or.inr (by omega)
  · rw [G.dist_comm, G.dist_comm (u := d) (v := v)] at h
    exact Or.inl (by omega)

/-- The path to a vertex begins with every neighbour that is closer to it. -/
theorem eq_snd_of_dist_lt (hG : G.IsTree) {v w d : V} (hadj : G.Adj v w)
    (hw : G.dist w d < G.dist v d) {p : G.Walk v d} (hp : p.IsPath) : w = p.snd := by
  obtain ⟨q, hq, hlen⟩ := (hG.connected w d).exists_path_of_dist
  have hv : v ∉ q.support := by
    classical
    intro hmem
    have hdrop := G.dist_le (q.dropUntil v hmem)
    have hle := q.length_dropUntil_le_length hmem
    omega
  have hcons : (SimpleGraph.Walk.cons hadj q).IsPath := SimpleGraph.Walk.IsPath.cons hq hv
  obtain rfl : p = .cons hadj q := (hG.existsUnique_path v d).unique hp hcons
  exact (SimpleGraph.Walk.snd_cons q hadj).symm

/-- Only one neighbour is closer. -/
theorem eq_of_dist_lt (hG : G.IsTree) {v w w' d : V} (hadj : G.Adj v w) (hadj' : G.Adj v w')
    (hw : G.dist w d < G.dist v d) (hw' : G.dist w' d < G.dist v d) : w = w' := by
  obtain ⟨p, hp, -⟩ := (hG.connected v d).exists_path_of_dist
  rw [eq_snd_of_dist_lt hG hadj hw hp, eq_snd_of_dist_lt hG hadj' hw' hp]

/-- What has come from a closer neighbour moves away to the others. -/
theorem dist_lt_of_ne (hG : G.IsTree) {u v w d : V} (hu : G.Adj v u) (hw : G.Adj v w)
    (hcloser : G.dist u d < G.dist v d) (hne : w ≠ u) : G.dist v d < G.dist w d :=
  (dist_lt_or_lt hG hw d).resolve_right fun h => hne (eq_of_dist_lt hG hw hu h hcloser)

/-- Another vertex has a neighbour on the way to it. -/
theorem exists_adj_dist_lt (hG : G.IsTree) {v d : V} (hne : v ≠ d) :
    ∃ w, G.Adj v w ∧ G.dist w d < G.dist v d := by
  obtain ⟨p, hp, hlen⟩ := (hG.connected v d).exists_path_of_dist
  cases p with
  | nil => exact absurd rfl hne
  | cons hadj q =>
      refine ⟨_, hadj, ?_⟩
      have hle := G.dist_le q
      rw [SimpleGraph.Walk.length_cons] at hlen
      omega

end

/-! ## Traffic -/

/-- The messages that have been injected, numbered in this order, with all that has been sent
over each link, and how much of that has been taken at its end. -/
structure Traffic (V μ : Type*) where
  injected : List μ
  sent : V → V → List (ℕ × μ)
  taken : V → V → ℕ

namespace Traffic

def empty : Traffic V μ where
  injected := []
  sent := fun _ _ => []
  taken := fun _ _ => 0

/-- What `v` has taken from `u`. -/
def received (t : Traffic V μ) (u v : V) : List (ℕ × μ) := (t.sent u v).take (t.taken u v)

/-- The message that is first on the link. -/
def front (t : Traffic V μ) (u v : V) : Option (ℕ × μ) := (t.sent u v)[t.taken u v]?

theorem mem_sent {t : Traffic V μ} {u v : V} {x : ℕ × μ} (h : x ∈ t.received u v) :
    x ∈ t.sent u v := List.mem_of_mem_take h

/-- All that has been sent has been taken. -/
def Quiet (t : Traffic V μ) : Prop := ∀ u v, t.received u v = t.sent u v

variable [DecidableEq V]

/-- A vertex sends a message over some of its links. -/
def push (sent : V → V → List (ℕ × μ)) (v : V) (outs : List V) (x : ℕ × μ) :
    V → V → List (ℕ × μ) :=
  Function.update sent v (outs.foldl (fun row w => Function.update row w (row w ++ [x])) (sent v))

def inject (t : Traffic V μ) (v : V) (outs : List V) (m : μ) : Traffic V μ where
  injected := t.injected ++ [m]
  sent := push t.sent v outs (t.injected.length, m)
  taken := t.taken

/-- The vertex `v` takes the message `x` from `u`, and sends a message over each of the given
links. The number tells which message they come of. -/
def pass (t : Traffic V μ) (u v : V) (x : ℕ × μ) (outs : List (V × μ)) : Traffic V μ where
  injected := t.injected
  sent := Function.update t.sent v (outs.foldl
    (fun row out => Function.update row out.1 (row out.1 ++ [(x.1, out.2)])) (t.sent v))
  taken := Function.update t.taken u (Function.update (t.taken u) v (t.taken u v + 1))

/-- The vertex `v` takes the message `x` from `u` and sends it on as it is. -/
def relay (t : Traffic V μ) (u v : V) (x : ℕ × μ) (outs : List V) : Traffic V μ where
  injected := t.injected
  sent := push t.sent v outs x
  taken := Function.update t.taken u (Function.update (t.taken u) v (t.taken u v + 1))

theorem pass_eq_relay (t : Traffic V μ) (u v : V) {x : ℕ × μ} {outs : List (V × μ)}
    (h : ∀ out ∈ outs, out.2 = x.2) : t.pass u v x outs = t.relay u v x (outs.map Prod.fst) := by
  rw [pass, relay, push, List.foldl_map]
  congr 2
  refine List.foldl_ext _ _ _ fun row out hout => ?_
  rw [h out hout]

theorem push_of_ne (sent : V → V → List (ℕ × μ)) {v a : V} (h : a ≠ v) (outs : List V)
    (x : ℕ × μ) : push sent v outs x a = sent a :=
  Function.update_of_ne h _ _

theorem foldl_update (row : V → List (ℕ × μ)) {outs : List V} (h : outs.Nodup) (x : ℕ × μ)
    (w : V) : outs.foldl (fun row w => Function.update row w (row w ++ [x])) row w =
      row w ++ if w ∈ outs then [x] else [] := by
  induction outs generalizing row with
  | nil => simp
  | cons a outs ih =>
      rw [List.nodup_cons] at h
      rw [List.foldl_cons, ih _ h.2]
      by_cases hw : w = a
      · subst hw
        simp [h.1]
      · simp [hw]

theorem push_self (sent : V → V → List (ℕ × μ)) (v : V) {outs : List V} (h : outs.Nodup)
    (x : ℕ × μ) (w : V) :
    push sent v outs x v w = sent v w ++ if w ∈ outs then [x] else [] := by
  rw [push, Function.update_self, foldl_update _ h]

/-- What has been taken so far is not affected by what is sent. -/
theorem take_push {sent : V → V → List (ℕ × μ)} {u v : V} {n : ℕ} (hn : n ≤ (sent u v).length)
    (a : V) {outs : List V} (h : outs.Nodup) (x : ℕ × μ) :
    (push sent a outs x u v).take n = (sent u v).take n := by
  by_cases hu : u = a
  · subst hu
    rw [push_self _ _ h, List.take_append_of_le_length hn]
  · rw [push_of_ne _ hu]

theorem mem_push {sent : V → V → List (ℕ × μ)} {a : V} {outs : List V} (h : outs.Nodup)
    {x y : ℕ × μ} {u v : V} : y ∈ push sent a outs x u v ↔
      y ∈ sent u v ∨ (u = a ∧ v ∈ outs ∧ y = x) := by
  by_cases hu : u = a
  · subst hu
    rw [push_self _ _ h, List.mem_append]
    by_cases hv : v ∈ outs
    · simp [hv]
    · simp [hv]
  · rw [push_of_ne _ hu]
    simp [hu]

theorem received_inject {t : Traffic V μ} {u v : V} (h : t.taken u v ≤ (t.sent u v).length)
    (a : V) {outs : List V} (houts : outs.Nodup) (m : μ) :
    (t.inject a outs m).received u v = t.received u v :=
  take_push h a houts _

theorem taken_relay (t : Traffic V μ) (u v : V) (x : ℕ × μ) (outs : List V) (a b : V) :
    (t.relay u v x outs).taken a b = t.taken a b + if a = u ∧ b = v then 1 else 0 := by
  by_cases ha : a = u
  · subst ha
    by_cases hb : b = v
    · subst hb
      simp [relay]
    · simp [relay, hb]
  · simp [relay, ha]

/-- The message is now among those that have been taken from its link. -/
theorem received_relay {t : Traffic V μ} (h : ∀ u v, t.taken u v ≤ (t.sent u v).length) {u v : V}
    {x : ℕ × μ} (hx : t.front u v = some x) {outs : List V} (houts : outs.Nodup) (a b : V) :
    (t.relay u v x outs).received a b = t.received a b ++ if a = u ∧ b = v then [x] else [] := by
  obtain ⟨hlt, hget⟩ := List.getElem?_eq_some_iff.mp hx
  rw [received, taken_relay]
  by_cases hab : a = u ∧ b = v
  · obtain ⟨rfl, rfl⟩ := hab
    rw [if_pos ⟨rfl, rfl⟩, if_pos ⟨rfl, rfl⟩]
    change (push t.sent b outs x a b).take _ = _
    rw [take_push hlt b houts, List.take_succ_eq_append_getElem hlt, hget, received]
  · rw [if_neg hab, if_neg hab, Nat.add_zero, List.append_nil]
    exact take_push (h a b) v houts x

end Traffic

/-! ## What holds of the traffic -/

section

open Traffic

variable (G : SimpleGraph V) (source : μ → V) (target : μ → V → Prop) (leaf : V → Prop)

/-- What holds of the traffic on a tree. -/
structure Flows (t : Traffic V μ) : Prop where
  taken_le : ∀ u v, t.taken u v ≤ (t.sent u v).length
  leaf_source : ∀ {n : ℕ} {m : μ}, t.injected[n]? = some m → leaf (source m)
  injected : ∀ {u v x}, x ∈ t.sent u v → t.injected[x.1]? = some x.2
  adj : ∀ {u v x}, x ∈ t.sent u v → G.Adj u v
  away : ∀ {u v x}, x ∈ t.sent u v → G.dist u (source x.2) < G.dist v (source x.2)
  nodup : ∀ u v, ((t.sent u v).map Prod.fst).Nodup
  came : ∀ {v w x}, x ∈ t.sent v w → v ≠ source x.2 → ∃ u, x ∈ t.received u v
  started : ∀ {n : ℕ} {m : μ} {w : V}, t.injected[n]? = some m → G.Adj (source m) w →
    (n, m) ∈ t.sent (source m) w
  left : ∀ {u v x}, x ∈ t.received u v → ¬ leaf v → ∀ d w, target x.2 d → G.Adj v w →
    G.dist w d < G.dist v d → w ≠ u → x ∈ t.sent v w

variable {G source target leaf} {t : Traffic V μ}

theorem flows_empty : Flows G source target leaf (empty : Traffic V μ) where
  taken_le := fun _ _ => Nat.le_refl 0
  leaf_source := by simp [empty]
  injected := by simp [empty]
  adj := by simp [empty]
  away := by simp [empty]
  nodup := by simp [empty]
  came := by simp [empty]
  started := by simp [empty]
  left := by simp [empty, received]

namespace Flows

/-- A number stands for one message. -/
theorem eq_of_fst (h : Flows G source target leaf t) {u v u' v' : V} {x y : ℕ × μ}
    (hx : x ∈ t.sent u v) (hy : y ∈ t.sent u' v') (heq : x.1 = y.1) : x = y := by
  have hx' := h.injected hx
  rw [heq, h.injected hy] at hx'
  exact Prod.ext heq (Option.some.inj hx').symm

/-- The link on which a message comes is determined by its source. -/
theorem eq_of_sent (hG : G.IsTree) (h : Flows G source target leaf t) {u u' v : V} {x : ℕ × μ}
    (hx : x ∈ t.sent u v) (hx' : x ∈ t.sent u' v) : u = u' :=
  eq_of_dist_lt hG (h.adj hx).symm (h.adj hx').symm (h.away hx) (h.away hx')

theorem ne_source (h : Flows G source target leaf t) {u v : V} {x : ℕ × μ}
    (hx : x ∈ t.sent u v) : v ≠ source x.2 := by
  rintro rfl
  have haway := h.away hx
  rw [G.dist_self] at haway
  exact absurd haway (Nat.not_lt_zero _)

/-- The first message on a link has not been sent on by its end. -/
theorem not_sent_of_front (hG : G.IsTree) (h : Flows G source target leaf t) {u v w : V}
    {x : ℕ × μ} (hx : t.front u v = some x) : x.1 ∉ (t.sent v w).map Prod.fst := by
  obtain ⟨hlt, hget⟩ := List.getElem?_eq_some_iff.mp hx
  have hmem : x ∈ t.sent u v := hget ▸ List.getElem_mem hlt
  intro hid
  obtain ⟨y, hy, hyx⟩ := List.mem_map.mp hid
  obtain rfl : y = x := h.eq_of_fst hy hmem hyx
  obtain ⟨u', hu'⟩ := h.came hy (h.ne_source hmem)
  obtain rfl : u' = u := h.eq_of_sent hG (mem_sent hu') hmem
  -- It would be among those that have been taken, and again behind them.
  have hnodup := (h.nodup u' v).of_map _
  rw [← List.take_append_drop (t.taken u' v) (t.sent u' v), List.nodup_append] at hnodup
  have hdrop : y ∈ (t.sent u' v).drop (t.taken u' v) := by
    rw [List.drop_eq_getElem_cons hlt, hget]
    exact List.mem_cons_self
  exact hnodup.2.2 y hu' y hdrop rfl

theorem fst_lt (h : Flows G source target leaf t) {u v : V} {x : ℕ × μ} (hx : x ∈ t.sent u v) :
    x.1 < t.injected.length :=
  (List.getElem?_eq_some_iff.mp (h.injected hx)).1

/-- A vertex takes a message once, over all of its links. -/
theorem received_once (hG : G.IsTree) (h : Flows G source target leaf t) {u u' v : V}
    {x y : ℕ × μ} (hx : x ∈ t.received u v) (hy : y ∈ t.received u' v) (heq : x.1 = y.1) :
    x = y ∧ u = u' := by
  obtain rfl := h.eq_of_fst (mem_sent hx) (mem_sent hy) heq
  exact ⟨rfl, h.eq_of_sent hG (mem_sent hx) (mem_sent hy)⟩

theorem nodup_received (h : Flows G source target leaf t) (u v : V) :
    ((t.received u v).map Prod.fst).Nodup :=
  (h.nodup u v).sublist (List.Sublist.map _ (List.take_sublist _ _))

variable [DecidableEq V]

theorem inject (h : Flows G source target leaf t) {m : μ} {outs : List V}
    (hleaf : leaf (source m)) (hnodup : outs.Nodup) (hadj : ∀ w, w ∈ outs ↔ G.Adj (source m) w) :
    Flows G source target leaf (t.inject (source m) outs m) := by
  have hold : ∀ {n : ℕ} {m' : μ}, t.injected[n]? = some m' →
      (t.injected ++ [m])[n]? = some m' := fun hn => by
    rw [List.getElem?_append_left (List.getElem?_eq_some_iff.mp hn).1, hn]
  have hcases : ∀ {n : ℕ} {m' : μ}, (t.injected ++ [m])[n]? = some m' →
      t.injected[n]? = some m' ∨ (n = t.injected.length ∧ m' = m) := by
    intro n m' hn
    rcases lt_or_ge n t.injected.length with hlt | hge
    · rw [List.getElem?_append_left hlt] at hn
      exact Or.inl hn
    · rw [List.getElem?_append_right hge, List.getElem?_singleton] at hn
      split_ifs at hn with hzero
      exact Or.inr ⟨by omega, (Option.some.inj hn).symm⟩
  have hreceived : ∀ u v, (t.inject (source m) outs m).received u v = t.received u v :=
    fun u v => received_inject (h.taken_le u v) _ hnodup m
  refine ⟨fun u v => ?_, fun hn => ?_, fun hx => ?_, fun hx => ?_, fun hx => ?_, fun u v => ?_,
    fun hx hne => ?_, fun hn hw => ?_, fun hx hv d w hd hw hlt hne => ?_⟩
  · refine (h.taken_le u v).trans (List.Sublist.length_le ?_)
    by_cases hu : u = source m
    · subst hu
      change List.Sublist _ (push t.sent (source m) outs _ (source m) v)
      rw [push_self _ _ hnodup]
      exact List.sublist_append_left _ _
    · change List.Sublist _ (push t.sent (source m) outs _ u v)
      rw [push_of_ne _ hu]
  · rcases hcases hn with hn | ⟨-, rfl⟩
    · exact h.leaf_source hn
    · exact hleaf
  · rcases (mem_push hnodup).mp hx with hx | ⟨-, -, rfl⟩
    · exact hold (h.injected hx)
    · exact List.getElem?_concat_length
  · rcases (mem_push hnodup).mp hx with hx | ⟨rfl, hv, -⟩
    · exact h.adj hx
    · exact (hadj _).mp hv
  · rcases (mem_push hnodup).mp hx with hx | ⟨rfl, hv, rfl⟩
    · exact h.away hx
    · rw [G.dist_self, G.dist_comm, SimpleGraph.dist_eq_one_iff_adj.mpr ((hadj _).mp hv)]
      exact Nat.zero_lt_one
  · by_cases hu : u = source m
    · subst hu
      change ((push t.sent (source m) outs _ (source m) v).map Prod.fst).Nodup
      rw [push_self _ _ hnodup]
      split_ifs
      · rw [List.map_append, List.nodup_append]
        refine ⟨h.nodup _ v, List.nodup_singleton _, fun n hn n' hn' => ?_⟩
        obtain ⟨x, hx, rfl⟩ := List.mem_map.mp hn
        rw [List.mem_singleton.mp hn']
        exact (h.fst_lt hx).ne
      · rw [List.append_nil]
        exact h.nodup _ v
    · change ((push t.sent (source m) outs _ u v).map Prod.fst).Nodup
      rw [push_of_ne _ hu]
      exact h.nodup u v
  · rcases (mem_push hnodup).mp hx with hx | ⟨rfl, -, rfl⟩
    · obtain ⟨u, hu⟩ := h.came hx hne
      exact ⟨u, by rwa [hreceived]⟩
    · exact absurd rfl hne
  · rw [Traffic.inject, mem_push hnodup]
    rcases hcases hn with hn | ⟨rfl, rfl⟩
    · exact Or.inl (h.started hn hw)
    · exact Or.inr ⟨rfl, (hadj _).mpr hw, rfl⟩
  · rw [hreceived] at hx
    exact (mem_push hnodup).mpr (Or.inl (h.left hx hv d w hd hw hlt hne))

theorem relay (hG : G.IsTree) (h : Flows G source target leaf t) {u v : V} {x : ℕ × μ}
    {outs : List V} (hfront : t.front u v = some x) (hnodup : outs.Nodup)
    (hadj : ∀ w ∈ outs, G.Adj v w ∧ w ≠ u)
    (htarget : ¬ leaf v → ∀ d w, target x.2 d → G.Adj v w → G.dist w d < G.dist v d →
      w ≠ u → w ∈ outs) : Flows G source target leaf (t.relay u v x outs) := by
  obtain ⟨hlt, hget⟩ := List.getElem?_eq_some_iff.mp hfront
  have hmem : x ∈ t.sent u v := hget ▸ List.getElem_mem hlt
  have hreceived : ∀ a b, (t.relay u v x outs).received a b =
      t.received a b ++ if a = u ∧ b = v then [x] else [] :=
    received_relay h.taken_le hfront hnodup
  refine ⟨fun a b => ?_, h.leaf_source, fun hy => ?_, fun hy => ?_, fun hy => ?_, fun a b => ?_,
    fun hy hne => ?_, fun hn hw => ?_, fun {a b y} hy hb d w hd hw hcloser hne => ?_⟩
  · rw [taken_relay]
    have hle : (t.sent a b).length ≤ ((t.relay u v x outs).sent a b).length := by
      by_cases ha : a = v
      · subst ha
        change _ ≤ (push t.sent a outs x a b).length
        rw [push_self _ _ hnodup, List.length_append]
        exact Nat.le_add_right _ _
      · change _ ≤ (push t.sent v outs x a b).length
        rw [push_of_ne _ ha]
    split_ifs with hab
    · obtain ⟨rfl, rfl⟩ := hab
      exact Nat.lt_of_lt_of_le hlt hle
    · exact (h.taken_le a b).trans hle
  · rcases (mem_push hnodup).mp hy with hy | ⟨-, -, rfl⟩
    · exact h.injected hy
    · exact h.injected hmem
  · rcases (mem_push hnodup).mp hy with hy | ⟨rfl, hb, -⟩
    · exact h.adj hy
    · exact (hadj _ hb).1
  · rcases (mem_push hnodup).mp hy with hy | ⟨rfl, hb, rfl⟩
    · exact h.away hy
    · exact dist_lt_of_ne hG (h.adj hmem).symm (hadj _ hb).1 (h.away hmem) (hadj _ hb).2
  · by_cases ha : a = v
    · subst ha
      change ((push t.sent a outs x a b).map Prod.fst).Nodup
      rw [push_self _ _ hnodup]
      split_ifs
      · rw [List.map_append, List.nodup_append]
        refine ⟨h.nodup a b, List.nodup_singleton _, fun n hn n' hn' heq => ?_⟩
        rw [heq, List.mem_singleton.mp hn'] at hn
        exact h.not_sent_of_front hG hfront hn
      · rw [List.append_nil]
        exact h.nodup a b
    · change ((push t.sent v outs x a b).map Prod.fst).Nodup
      rw [push_of_ne _ ha]
      exact h.nodup a b
  · rcases (mem_push hnodup).mp hy with hy | ⟨rfl, -, rfl⟩
    · obtain ⟨a, ha⟩ := h.came hy hne
      exact ⟨a, by rw [hreceived]; exact List.mem_append_left _ ha⟩
    · refine ⟨u, ?_⟩
      rw [hreceived, if_pos ⟨rfl, rfl⟩]
      exact List.mem_append_right _ (List.mem_singleton_self _)
  · exact (mem_push hnodup).mpr (Or.inl (h.started hn hw))
  · rw [hreceived, List.mem_append] at hy
    refine (mem_push hnodup).mpr ?_
    rcases hy with hy | hy
    · exact Or.inl (h.left hy hb d w hd hw hcloser hne)
    · split_ifs at hy with hab
      · obtain ⟨rfl, rfl⟩ := hab
        obtain rfl := List.mem_singleton.mp hy
        exact Or.inr ⟨rfl, htarget hb d w hd hw hcloser hne, rfl⟩
      · exact absurd hy List.not_mem_nil

/-! ### What comes to its targets -/

/-- A message that is on its way to a target gets there. The induction is on the distance that
is left. -/
theorem arrives_of_sent (hG : G.IsTree) (hleaf : ∀ v, leaf v → ∀ w w', G.Adj v w → G.Adj v w' →
      w = w') (h : Flows G source target leaf t) (hquiet : t.Quiet) {x : ℕ × μ} {d : V}
    (hd : target x.2 d) {u v : V} (hx : x ∈ t.sent u v) (hcloser : G.dist v d < G.dist u d) :
    ∃ a, x ∈ t.received a d := by
  induction hk : G.dist v d using Nat.strong_induction_on generalizing u v with
  | _ k ih =>
      have hreceived : x ∈ t.received u v := hquiet u v ▸ hx
      by_cases hvd : v = d
      · subst hvd
        exact ⟨u, hreceived⟩
      · obtain ⟨w, hw, hwd⟩ := exists_adj_dist_lt hG hvd
        have hne : w ≠ u := by
          rintro rfl
          exact absurd (hcloser.trans hwd) (Nat.lt_irrefl _)
        have hv : ¬ leaf v := fun hv => hne (hleaf v hv w u hw (h.adj hx).symm)
        exact ih _ (hk ▸ hwd) (h.left hreceived hv d w hd hw hwd hne) hwd rfl

/-- When all links are empty, each message has come to all of its targets. -/
theorem arrives (hG : G.IsTree) (hleaf : ∀ v, leaf v → ∀ w w', G.Adj v w → G.Adj v w' → w = w')
    (h : Flows G source target leaf t) (hquiet : t.Quiet) {n : ℕ} {m : μ}
    (hn : t.injected[n]? = some m) {d : V} (hd : target m d) (hne : source m ≠ d) :
    ∃ u, (n, m) ∈ t.received u d := by
  obtain ⟨w, hw, hwd⟩ := exists_adj_dist_lt hG hne
  exact h.arrives_of_sent hG hleaf hquiet hd (h.started hn hw) hwd

end Flows

end

end TreeFlooding
