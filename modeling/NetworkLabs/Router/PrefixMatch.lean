import NetworkLabs.Router.ForwardingLaw

/-!
# The longest prefix

The masks of a routing table are prefixes of some length; that of a default
route, which the kernel gives without a destination, has the length 0. The
search starts with the mask 0 as the longest so far and takes only longer ones,
so that a default route is never found.
-/

namespace NetworkLabs

namespace Router

variable {ι : Type*}

/-- The mask whose first bits are set. -/
def prefixMask (len : ℕ) : UInt32 := UInt32.ofNat (2 ^ 32 - 2 ^ (32 - len))

theorem toNat_prefixMask (len : ℕ) : (prefixMask len).toNat = 2 ^ 32 - 2 ^ (32 - len) := by
  have hpos : 0 < 2 ^ (32 - len) := Nat.two_pow_pos _
  rw [prefixMask, UInt32.toNat_ofNat', Nat.mod_eq_of_lt]
  omega

/-- Of two prefixes the shorter one has the smaller mask. -/
theorem prefixMask_lt {len len' : ℕ} (hlt : len < len') (hle : len' ≤ 32) :
    prefixMask len < prefixMask len' := by
  have hpow : 2 ^ (32 - len') < 2 ^ (32 - len) :=
    Nat.pow_lt_pow_right one_lt_two (by omega)
  have hfull : 2 ^ (32 - len) ≤ 2 ^ 32 := Nat.pow_le_pow_right two_pos (Nat.sub_le _ _)
  rw [UInt32.lt_iff_toNat_lt, toNat_prefixMask, toNat_prefixMask]
  omega

theorem le_of_prefixMask_le {len len' : ℕ} (hle : len ≤ 32)
    (hmask : prefixMask len ≤ prefixMask len') : len ≤ len' := by
  by_contra! hlt
  exact absurd (prefixMask_lt hlt hle) (UInt32.not_lt.mpr hmask)

/-- Every mask is a prefix. -/
def Contiguous (rtable : List (RtEntry ι)) : Prop :=
  ∀ rt ∈ rtable, ∃ len ≤ 32, rt.mask = prefixMask len

/-- What the search should find: nothing if and only if no entry matches, and
otherwise one that matches and whose prefix is as long as those of all that
match. -/
structure FindsLongest (rtable : List (RtEntry ι)) (dst : UInt32)
    (result : Option (RtEntry ι)) : Prop where
  none_iff : result = none ↔ ∀ rt ∈ rtable, rt.matches dst = false
  mem : ∀ rt, result = some rt → rt ∈ rtable
  matches_dst : ∀ rt, result = some rt → rt.matches dst = true
  longest : ∀ rt, result = some rt → ∃ len ≤ 32, rt.mask = prefixMask len ∧
    ∀ r ∈ rtable, r.matches dst = true → ∃ len' ≤ len, r.mask = prefixMask len'

/-- If an entry matches, then there is a matched route. The induction is on the
table from its end: the entry before it replaces the matched route of the rest
exactly if its mask is not shorter. -/
theorem exists_isMatchedRoute (rtable : List (RtEntry ι)) (dst : UInt32)
    (h : ∃ rt ∈ rtable, rt.matches dst = true) : ∃ rt, IsMatchedRoute rtable dst rt := by
  induction rtable with
  | nil =>
      obtain ⟨rt, hmem, -⟩ := h
      exact absurd hmem List.not_mem_nil
  | cons r rtable ih =>
      by_cases hrest : ∃ rt ∈ rtable, rt.matches dst = true
      · obtain ⟨rt, before, after, rfl, hmatches, hbefore, hafter⟩ := ih hrest
        by_cases hr : r.matches dst = true ∧ rt.mask ≤ r.mask
        · refine ⟨r, [], before ++ rt :: after, rfl, hr.1, ?_, ?_⟩
          · exact fun r' hr' => absurd hr' List.not_mem_nil
          · intro r' hr' hmatch
            rcases List.mem_append.mp hr' with hr' | hr'
            · exact UInt32.le_trans (UInt32.le_of_lt (hbefore r' hr' hmatch)) hr.2
            · rcases List.mem_cons.mp hr' with rfl | hr'
              · exact hr.2
              · exact UInt32.le_trans (hafter r' hr' hmatch) hr.2
        · refine ⟨rt, r :: before, after, rfl, hmatches, ?_, hafter⟩
          intro r' hr' hmatch
          rcases List.mem_cons.mp hr' with rfl | hr'
          · exact UInt32.not_le.mp fun hle => hr ⟨hmatch, hle⟩
          · exact hbefore r' hr' hmatch
      · push Not at hrest
        obtain ⟨rt, hmem, hmatches⟩ := h
        rcases List.mem_cons.mp hmem with rfl | hmem
        · refine ⟨rt, [], rtable, rfl, hmatches, ?_, ?_⟩
          · exact fun r' hr' => absurd hr' List.not_mem_nil
          · exact fun r' hr' hmatch => absurd hmatch (hrest r' hr')
        · exact absurd hmatches (hrest rt hmem)

/-- The matched route is one of the table, and has the longest mask. -/
theorem IsMatchedRoute.mem {rtable : List (RtEntry ι)} {dst : UInt32} {rt : RtEntry ι}
    (h : IsMatchedRoute rtable dst rt) : rt ∈ rtable := by
  obtain ⟨before, after, rfl, -⟩ := h
  exact List.mem_append_right before List.mem_cons_self

theorem IsMatchedRoute.matches_dst {rtable : List (RtEntry ι)} {dst : UInt32} {rt : RtEntry ι}
    (h : IsMatchedRoute rtable dst rt) : rt.matches dst = true := by
  obtain ⟨before, after, -, hmatches, -⟩ := h
  exact hmatches

theorem IsMatchedRoute.mask_le {rtable : List (RtEntry ι)} {dst : UInt32} {rt r : RtEntry ι}
    (h : IsMatchedRoute rtable dst rt) (hmem : r ∈ rtable) (hmatch : r.matches dst = true) :
    r.mask ≤ rt.mask := by
  obtain ⟨before, after, rfl, -, hbefore, hafter⟩ := h
  rcases List.mem_append.mp hmem with hmem | hmem
  · exact UInt32.le_of_lt (hbefore r hmem hmatch)
  · rcases List.mem_cons.mp hmem with rfl | hmem
    · exact UInt32.le_refl _
    · exact hafter r hmem hmatch

theorem longestPrefixMatch_eq_none (rtable : List (RtEntry ι)) (dst : UInt32)
    (h : ∀ rt ∈ rtable, rt.matches dst = false) : longestPrefixMatch rtable dst = none := by
  rw [longestPrefixMatch, foldl_matchRound_of_le]
  intro rt hmem hmatch
  rw [h rt hmem] at hmatch
  exact absurd hmatch Bool.false_ne_true

/-- A matched route is the right answer to the search. -/
theorem IsMatchedRoute.findsLongest {rtable : List (RtEntry ι)} {dst : UInt32} {rt : RtEntry ι}
    (h : IsMatchedRoute rtable dst rt) (hmasks : Contiguous rtable) :
    FindsLongest rtable dst (some rt) where
  none_iff := by
    refine iff_of_false (by simp) fun hnone => ?_
    exact absurd h.matches_dst (by rw [hnone rt h.mem]; exact Bool.false_ne_true)
  mem := by
    rintro _ ⟨⟩
    exact h.mem
  matches_dst := by
    rintro _ ⟨⟩
    exact h.matches_dst
  longest := by
    rintro _ ⟨⟩
    obtain ⟨len, hlen, hrt⟩ := hmasks rt h.mem
    refine ⟨len, hlen, hrt, fun r hmem hmatch => ?_⟩
    obtain ⟨len', hlen', hr⟩ := hmasks r hmem
    have hle := h.mask_le hmem hmatch
    rw [hr, hrt] at hle
    exact ⟨len', le_of_prefixMask_le hlen' hle, hr⟩

theorem findsLongest_none {rtable : List (RtEntry ι)} {dst : UInt32}
    (h : ∀ rt ∈ rtable, rt.matches dst = false) : FindsLongest rtable dst none where
  none_iff := iff_of_true rfl h
  mem := fun rt hrt => absurd hrt (by simp)
  matches_dst := fun rt hrt => absurd hrt (by simp)
  longest := fun rt hrt => absurd hrt (by simp)

/-- Some route other than a default route matches. -/
def HasRoute (rtable : List (RtEntry ι)) (dst : UInt32) : Prop :=
  ∃ rt ∈ rtable, rt.matches dst = true ∧ rt.mask ≠ 0

/-- What the search finds is the matched route, and no default route. -/
theorem longestPrefixMatch_eq_some {rtable : List (RtEntry ι)} {dst : UInt32} {rt : RtEntry ι}
    (h : longestPrefixMatch rtable dst = some rt) :
    IsMatchedRoute rtable dst rt ∧ rt.mask ≠ 0 := by
  by_cases hsome : ∃ r ∈ rtable, r.matches dst = true
  · obtain ⟨r, hroute⟩ := exists_isMatchedRoute rtable dst hsome
    rw [longestPrefixMatch_eq rtable dst r hroute] at h
    by_cases hmask : r.mask = 0
    · rw [if_pos hmask] at h
      exact absurd h (by simp)
    · rw [if_neg hmask, Option.some.injEq] at h
      exact h ▸ ⟨hroute, hmask⟩
  · have hnone := longestPrefixMatch_eq_none rtable dst fun r hmem =>
      Bool.eq_false_iff.mpr fun hmatch => hsome ⟨r, hmem, hmatch⟩
    rw [hnone] at h
    exact absurd h (by simp)

theorem longestPrefixMatch_ne_none_iff (rtable : List (RtEntry ι)) (dst : UInt32) :
    longestPrefixMatch rtable dst ≠ none ↔ HasRoute rtable dst := by
  constructor
  · intro h
    obtain ⟨rt, hrt⟩ := Option.ne_none_iff_exists'.mp h
    obtain ⟨hroute, hmask⟩ := longestPrefixMatch_eq_some hrt
    exact ⟨rt, hroute.mem, hroute.matches_dst, hmask⟩
  · rintro ⟨r, hmem, hmatch, hr⟩
    obtain ⟨rt, hroute⟩ := exists_isMatchedRoute rtable dst ⟨r, hmem, hmatch⟩
    have hle := hroute.mask_le hmem hmatch
    rw [longestPrefixMatch_eq rtable dst rt hroute, if_neg]
    · simp
    · intro hmask
      rw [hmask] at hle
      exact hr (UInt32.le_zero_iff.mp hle)

/-- The search finds the longest prefix exactly if nothing matches, or something
other than default routes does. -/
theorem longestPrefixMatch_findsLongest_iff (rtable : List (RtEntry ι)) (dst : UInt32)
    (hmasks : Contiguous rtable) :
    FindsLongest rtable dst (longestPrefixMatch rtable dst) ↔
      (∀ rt ∈ rtable, rt.matches dst = false) ∨
        ∃ rt ∈ rtable, rt.matches dst = true ∧ rt.mask ≠ 0 := by
  have hroutes : longestPrefixMatch rtable dst ≠ none ↔
      ∃ rt ∈ rtable, rt.matches dst = true ∧ rt.mask ≠ 0 :=
    longestPrefixMatch_ne_none_iff rtable dst
  rw [← hroutes]
  cases hfound : longestPrefixMatch rtable dst with
  | none =>
      -- Nothing is found; this is right if nothing matches.
      rw [or_iff_left (not_not.mpr rfl)]
      exact ⟨fun h => h.none_iff.mp rfl, findsLongest_none⟩
  | some rt =>
      have hroute := (longestPrefixMatch_eq_some hfound).1
      exact iff_of_true (hroute.findsLongest hmasks) (Or.inr (by simp))

/-- A route for every destination beside one for some of them. -/
theorem longestPrefixMatch_findsLongest_default :
    FindsLongest [{ dest := 0, mask := 0, gw := 9, iface := () },
        { dest := 0x0a000000, mask := 0xff000000, gw := 0, iface := () }] 0x0a000001
      (longestPrefixMatch [{ dest := 0, mask := 0, gw := 9, iface := () },
        { dest := 0x0a000000, mask := 0xff000000, gw := 0, iface := () }] 0x0a000001) := by
  refine (longestPrefixMatch_findsLongest_iff _ _ ?_).mpr (Or.inr ?_)
  · intro rt hmem
    rcases List.mem_cons.mp hmem with rfl | hmem
    · exact ⟨0, Nat.zero_le _, by decide⟩
    · obtain rfl := List.mem_singleton.mp hmem
      exact ⟨8, by decide, by decide⟩
  · exact ⟨_, List.mem_cons_of_mem _ (List.mem_singleton_self _), by decide, by decide⟩

/-- A route for every destination alone is not found. -/
theorem not_findsLongest_default :
    ¬ ∀ (rtable : List (RtEntry Unit)) (dst : UInt32), Contiguous rtable →
      FindsLongest rtable dst (longestPrefixMatch rtable dst) := by
  intro h
  have hmasks : Contiguous [{ dest := 0, mask := 0, gw := 9, iface := () : RtEntry Unit }] := by
    intro rt hmem
    obtain rfl := List.mem_singleton.mp hmem
    exact ⟨0, Nat.zero_le _, by decide⟩
  have hnone := (h _ 0x0a000001 hmasks).none_iff.mp (by rfl)
  exact absurd (hnone _ (List.mem_singleton_self _)) (by decide)

end Router

end NetworkLabs
