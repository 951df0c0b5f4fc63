import NetworkLabs.Library.ListSlice
import NetworkLabs.Sponge.StreamReassembler

/-!
# Merging a substring into the map of segments

The map of a reassembler holds slices of one stream that lie behind the
assembled index and neither overlap nor touch one another: this is
`Separated`. A substring that is merged in swallows the segments it touches.
Since the segments are separated, those are the segments that touch the
substring itself, and the loop of `merge_segments` never has to look back: what
a round adds on the right is the next segment, and what it adds on the left
ends behind every segment of an earlier round.

`MergeInv` is the invariant of the loop. It leads to two facts about the merged
map: it is separated again, and it covers what the map and the substring
covered.
-/

namespace NetworkLabs

namespace StreamReassembler

/-- The segments of `m` are slices of `S` behind the index `a` that neither
overlap nor touch. -/
structure Separated (S : List UInt8) (a : ℕ) (m : SortedMap (List UInt8)) : Prop where
  slice : ∀ e ∈ m, IsSlice S e.1 e.2
  beyond : ∀ e ∈ m, a < e.1
  bounded : ∀ e ∈ m, e.1 + e.2.length < 2 ^ 64
  apart : ∀ e ∈ m, ∀ f ∈ m, e.1 < f.1 → e.1 + e.2.length < f.1

/-- Some segment of `m` holds the byte at the index `p`. -/
def Holds (m : SortedMap (List UInt8)) (p : ℕ) : Prop :=
  ∃ e ∈ m, e.1 ≤ p ∧ p < e.1 + e.2.length

/-- The loop of `merge_segments` behind the entries `seen`: the data kept so
far is a slice that contains the new substring and the removed segments and
nothing else, and it touches none of the other segments. The loop gives the
substring up only when one segment contains it. -/
structure MergeInv (S : List UInt8) (a index : ℕ) (data : List UInt8)
    (seen : List (ℕ × List UInt8)) (st : MergeLoop) : Prop where
  dataRgt_eq : st.dataRgt = st.dataLft + st.dataCpy.length
  slice : IsSlice S st.dataLft st.dataCpy
  beyond : a < st.dataLft
  bounded : st.dataRgt < 2 ^ 64
  lft_le : st.dataLft ≤ index
  le_rgt : index + data.length ≤ st.dataRgt
  fresh : st.removeList = [] → st.dataLft = index ∧ st.dataCpy = data
  removed : ∀ k ∈ st.removeList, ∃ e ∈ seen, e.1 = k ∧ st.dataLft ≤ e.1 ∧
    e.1 + e.2.length ≤ st.dataRgt
  kept : st.cached = true → ∀ e ∈ seen, e.1 ∉ st.removeList →
    e.1 + e.2.length < st.dataLft ∨ st.dataRgt < e.1
  cover : ∀ p, st.dataLft ≤ p → p < st.dataRgt → (index ≤ p ∧ p < index + data.length) ∨
    ∃ e ∈ seen, e.1 ∈ st.removeList ∧ e.1 ≤ p ∧ p < e.1 + e.2.length
  given_up : st.cached = false → st.removeList = [] ∧
    ∃ e ∈ seen, e.1 ≤ index ∧ index + data.length ≤ e.1 + e.2.length

theorem mergeInv_start (S : List UInt8) (a index : ℕ) (data : List UInt8)
    (hslice : IsSlice S index data) (ha : a < index)
    (hbound : index + data.length < 2 ^ 64) :
    MergeInv S a index data [] (mergeStart index data) := by
  have hrgt : (mergeStart index data).dataRgt = index + data.length :=
    sizeT_add index data.length hbound
  exact {
    dataRgt_eq := hrgt
    slice := hslice
    beyond := ha
    bounded := by rw [hrgt]; exact hbound
    lft_le := le_rfl
    le_rgt := hrgt.ge
    fresh := fun _ => ⟨rfl, rfl⟩
    removed := by simp [mergeStart]
    kept := by simp
    cover := fun p hp hlt => Or.inl ⟨hp, by rwa [hrgt] at hlt⟩
    given_up := by simp [mergeStart] }

section Round

variable {S : List UInt8} {a index : ℕ} {data : List UInt8}
  {seen : List (ℕ × List UInt8)} {st : MergeLoop} {e : ℕ × List UInt8}

/-- A segment that the data does not touch is passed over. -/
theorem mergeInv_pass (h : MergeInv S a index data seen st)
    (hfar : st.cached = true → e.1 + e.2.length < st.dataLft ∨ st.dataRgt < e.1) :
    MergeInv S a index data (seen ++ [e]) st where
  dataRgt_eq := h.dataRgt_eq
  slice := h.slice
  beyond := h.beyond
  bounded := h.bounded
  lft_le := h.lft_le
  le_rgt := h.le_rgt
  fresh := h.fresh
  removed := by
    intro k hk
    obtain ⟨d, hd, hrest⟩ := h.removed k hk
    exact ⟨d, List.mem_append_left _ hd, hrest⟩
  kept := by
    intro hcached d hd hnot
    rcases List.mem_append.mp hd with hd | hd
    · exact h.kept hcached d hd hnot
    · obtain rfl := List.mem_singleton.mp hd
      exact hfar hcached
  cover := by
    intro p hp hlt
    rcases h.cover p hp hlt with hdata | ⟨d, hd, hrest⟩
    · exact Or.inl hdata
    · exact Or.inr ⟨d, List.mem_append_left _ hd, hrest⟩
  given_up := by
    intro hcached
    obtain ⟨hnil, d, hd, hrest⟩ := h.given_up hcached
    exact ⟨hnil, d, List.mem_append_left _ hd, hrest⟩

/-- A segment that the data touches becomes part of it: the new data runs from
the smaller left end to the larger right end. -/
theorem mergeInv_join (h : MergeInv S a index data seen st) (hcached : st.cached = true)
    (hseen : ∀ d ∈ seen, d.1 + d.2.length < e.1) (ha : a < e.1)
    (htouch : e.1 ≤ st.dataRgt ∧ st.dataLft ≤ e.1 + e.2.length)
    (cpy : List UInt8) (hcpy : IsSlice S (min st.dataLft e.1) cpy)
    (hlen : min st.dataLft e.1 + cpy.length = max st.dataRgt (e.1 + e.2.length))
    (hbound : e.1 + e.2.length < 2 ^ 64) :
    MergeInv S a index data (seen ++ [e])
      { dataLft := min st.dataLft e.1
        dataRgt := max st.dataRgt (e.1 + e.2.length)
        dataCpy := cpy
        removeList := st.removeList ++ [e.1]
        cached := st.cached } where
  dataRgt_eq := hlen.symm
  slice := hcpy
  beyond := lt_min h.beyond ha
  bounded := max_lt h.bounded hbound
  lft_le := le_trans (min_le_left _ _) h.lft_le
  le_rgt := le_trans h.le_rgt (le_max_left _ _)
  fresh := by simp
  removed := by
    intro k hk
    rcases List.mem_append.mp hk with hk | hk
    · obtain ⟨d, hd, hkey, hlft, hrgt⟩ := h.removed k hk
      exact ⟨d, List.mem_append_left _ hd, hkey, le_trans (min_le_left _ _) hlft,
        le_trans hrgt (le_max_left _ _)⟩
    · obtain rfl := List.mem_singleton.mp hk
      exact ⟨e, by simp, rfl, min_le_right _ _, le_max_right _ _⟩
  kept := by
    intro _ d hd hnot
    rw [List.mem_append, not_or] at hnot
    rcases List.mem_append.mp hd with hd | hd
    · -- an earlier segment on the right of the data would lie behind `e`
      have hbefore := hseen d hd
      rcases h.kept hcached d hd hnot.1 with hleft | hright
      · exact Or.inl (lt_min hleft hbefore)
      · omega
    · obtain rfl := List.mem_singleton.mp hd
      exact absurd (List.mem_singleton.mpr rfl) hnot.2
  cover := by
    intro p hp hlt
    change min st.dataLft e.1 ≤ p at hp
    change p < max st.dataRgt (e.1 + e.2.length) at hlt
    by_cases hin : st.dataLft ≤ p ∧ p < st.dataRgt
    · rcases h.cover p hin.1 hin.2 with hdata | ⟨d, hd, hmem, hrest⟩
      · exact Or.inl hdata
      · exact Or.inr ⟨d, List.mem_append_left _ hd, List.mem_append_left _ hmem, hrest⟩
    · exact Or.inr ⟨e, by simp, by simp, by omega, by omega⟩
  given_up := by
    intro hfalse
    rw [hcached] at hfalse
    exact absurd hfalse (by simp)

/-- A segment that contains the whole data makes the loop give it up; no
segment was removed before, since those lie inside the data. -/
theorem mergeInv_giveUp (h : MergeInv S a index data seen st)
    (hseen : ∀ d ∈ seen, d.1 < e.1)
    (hin : e.1 < st.dataLft ∧ st.dataRgt ≤ e.1 + e.2.length) :
    MergeInv S a index data (seen ++ [e]) { st with cached := false } := by
  have hnil : st.removeList = [] := by
    rw [List.eq_nil_iff_forall_not_mem]
    intro k hk
    obtain ⟨d, hd, -, hlft, -⟩ := h.removed k hk
    have hlt := hseen d hd
    omega
  have hlft := h.lft_le
  have hrgt := h.le_rgt
  exact {
    dataRgt_eq := h.dataRgt_eq
    slice := h.slice
    beyond := h.beyond
    bounded := h.bounded
    lft_le := h.lft_le
    le_rgt := h.le_rgt
    fresh := h.fresh
    removed := by simp [hnil]
    kept := by simp
    cover := by
      intro p hp hlt
      rcases h.cover p hp hlt with hdata | ⟨d, hd, hrest⟩
      · exact Or.inl hdata
      · exact Or.inr ⟨d, List.mem_append_left _ hd, hrest⟩
    given_up := fun _ => ⟨hnil, e, by simp, by omega, by omega⟩ }

/-- The second test of a round keeps the invariant, for a segment that the
first test has left alone. -/
theorem mergeInv_mergeLeft (h : MergeInv S a index data seen st)
    (hslice : IsSlice S e.1 e.2) (ha : a < e.1) (hbound : e.1 + e.2.length < 2 ^ 64)
    (hseen : ∀ d ∈ seen, d.1 + d.2.length < e.1)
    (hfirst : ¬(st.dataLft ≤ e.1 ∧ e.1 ≤ st.dataRgt)) :
    MergeInv S a index data (seen ++ [e]) (mergeLeft st e) := by
  have hend := sizeT_add e.1 e.2.length hbound
  have hrgt := h.dataRgt_eq
  have hlt := h.bounded
  rw [mergeLeft]
  simp only [hend]
  split_ifs with htouch hin
  · exact mergeInv_giveUp h (fun d hd => by have := hseen d hd; omega) ⟨htouch.1, hin⟩
  · cases hcached : st.cached with
    | false =>
        -- an earlier segment that contains the substring would lie before `e`
        obtain ⟨-, d, hd, hle, hge⟩ := h.given_up hcached
        have hbefore := hseen d hd
        have hlft := h.lft_le
        have hfresh := h.fresh (h.given_up hcached).1
        rw [hfresh.1, hfresh.2] at hrgt
        omega
    | true =>
        have hlen : (e.2.take (st.dataLft - e.1)).length = st.dataLft - e.1 := by
          rw [List.length_take]
          omega
        have hcpy : IsSlice S (min st.dataLft e.1)
            (e.2.take (st.dataLft - e.1) ++ st.dataCpy) := by
          rw [min_eq_right htouch.1.le]
          apply (hslice.take _).append
          rw [hlen, Nat.add_sub_cancel' htouch.1.le]
          exact h.slice
        have hsize : min st.dataLft e.1 + (e.2.take (st.dataLft - e.1) ++ st.dataCpy).length =
            max st.dataRgt (e.1 + e.2.length) := by
          rw [List.length_append, hlen]
          omega
        have hjoin := mergeInv_join h hcached hseen ha ⟨by omega, by omega⟩ _ hcpy hsize hbound
        have hcast : sizeT (e.1 + (e.2.take (st.dataLft - e.1) ++ st.dataCpy).length) =
            max st.dataRgt (e.1 + e.2.length) := by
          rw [sizeT_add _ _ (by omega)]
          omega
        rw [hcast]
        rwa [min_eq_right htouch.1.le, hcached] at hjoin
  · exact mergeInv_pass h fun _ => by omega

/-- After the data was prolonged to the right the second test fails. -/
theorem mergeLeft_of_le (h : st.dataLft ≤ e.1) : mergeLeft st e = st := by
  rw [mergeLeft]
  simp only
  rw [if_neg (by omega)]

theorem mergeInv_round (h : MergeInv S a index data seen st)
    (hslice : IsSlice S e.1 e.2) (ha : a < e.1) (hbound : e.1 + e.2.length < 2 ^ 64)
    (hseen : ∀ d ∈ seen, d.1 + d.2.length < e.1) :
    MergeInv S a index data (seen ++ [e]) (mergeRound st e) := by
  have hend := sizeT_add e.1 e.2.length hbound
  have hrgt := h.dataRgt_eq
  have hlt := h.bounded
  by_cases hfirst : st.dataLft ≤ e.1 ∧ e.1 ≤ st.dataRgt
  · have hcached : st.cached = true := by
      rw [← Bool.not_eq_false]
      intro hfalse
      obtain ⟨hnil, d, hd, hle, hge⟩ := h.given_up hfalse
      have hbefore := hseen d hd
      have hfresh := h.fresh hnil
      rw [hfresh.1, hfresh.2] at hrgt
      omega
    rw [mergeRound]
    simp only [hend]
    rw [if_pos hfirst]
    split_ifs with hcover
    · have hjoin := mergeInv_join h hcached hseen ha ⟨hfirst.2, by omega⟩ st.dataCpy
        (by rw [min_eq_left hfirst.1]; exact h.slice) (by omega) hbound
      rwa [min_eq_left hfirst.1, max_eq_left hcover] at hjoin
    · have hlen : (st.dataCpy.take (e.1 - st.dataLft)).length = e.1 - st.dataLft := by
        rw [List.length_take]
        omega
      have hcpy : IsSlice S (min st.dataLft e.1)
          (st.dataCpy.take (e.1 - st.dataLft) ++ e.2) := by
        rw [min_eq_left hfirst.1]
        apply (h.slice.take _).append
        rw [hlen, Nat.add_sub_cancel' hfirst.1]
        exact hslice
      have hsize : min st.dataLft e.1 + (st.dataCpy.take (e.1 - st.dataLft) ++ e.2).length =
          max st.dataRgt (e.1 + e.2.length) := by
        rw [List.length_append, hlen]
        omega
      have hjoin := mergeInv_join h hcached hseen ha ⟨hfirst.2, by omega⟩ _ hcpy hsize hbound
      have hcast : sizeT (st.dataLft + (st.dataCpy.take (e.1 - st.dataLft) ++ e.2).length) =
          max st.dataRgt (e.1 + e.2.length) := by
        rw [sizeT_add _ _ (by omega)]
        omega
      rw [mergeLeft_of_le (by exact hfirst.1), hcast]
      rwa [min_eq_left hfirst.1] at hjoin
  · rw [mergeRound]
    simp only
    rw [if_neg hfirst]
    exact mergeInv_mergeLeft h hslice ha hbound hseen hfirst

end Round

/-- The loop of `merge_segments` over a separated map. -/
theorem mergeInv_loop (S : List UInt8) (a index : ℕ) (data : List UInt8)
    (m : SortedMap (List UInt8)) (hm : Separated S a m) (hslice : IsSlice S index data)
    (ha : a < index) (hbound : index + data.length < 2 ^ 64) :
    MergeInv S a index data m.entries
      (m.entries.foldl mergeRound (mergeStart index data)) := by
  apply m.foldl_induction mergeRound (MergeInv S a index data)
  · exact mergeInv_start S a index data hslice ha hbound
  · intro seen e st hseen he hlt h
    exact mergeInv_round h (hm.slice e he) (hm.beyond e he) (hm.bounded e he)
      fun d hd => hm.apart d (hseen d hd) e he (hlt d hd)

/-! ## The merged map -/

section Merged

variable {S : List UInt8} {a index : ℕ} {data : List UInt8} {m : SortedMap (List UInt8)}
  {st : MergeLoop}

/-- The entries left after the removals and the assignment. -/
theorem mem_merged_iff (st : MergeLoop) (e : ℕ × List UInt8) :
    e ∈ (m.eraseAll st.removeList).insert st.dataLft st.dataCpy ↔
      e = (st.dataLft, st.dataCpy) ∨ (e ∈ m ∧ e.1 ∉ st.removeList ∧ e.1 ≠ st.dataLft) := by
  rw [SortedMap.mem_insert, SortedMap.mem_eraseAll, and_assoc]

theorem separated_merged (hm : Separated S a m)
    (h : MergeInv S a index data m.entries st) (hcached : st.cached = true) :
    Separated S a ((m.eraseAll st.removeList).insert st.dataLft st.dataCpy) := by
  have hrgt := h.dataRgt_eq
  have hlt := h.bounded
  exact {
    slice := by
      intro e he
      rcases (mem_merged_iff st e).mp he with rfl | ⟨he, -, -⟩
      · exact h.slice
      · exact hm.slice e he
    beyond := by
      intro e he
      rcases (mem_merged_iff st e).mp he with rfl | ⟨he, -, -⟩
      · exact h.beyond
      · exact hm.beyond e he
    bounded := by
      intro e he
      rcases (mem_merged_iff st e).mp he with rfl | ⟨he, -, -⟩
      · rwa [← hrgt]
      · exact hm.bounded e he
    apart := by
      intro e he f hf hef
      rcases (mem_merged_iff st e).mp he with rfl | ⟨he, hekeep, -⟩ <;>
        rcases (mem_merged_iff st f).mp hf with rfl | ⟨hf, hfkeep, -⟩
      · exact absurd hef (lt_irrefl _)
      · rcases h.kept hcached f hf hfkeep with hside | hside <;> simp only at * <;> omega
      · rcases h.kept hcached e he hekeep with hside | hside <;> simp only at * <;> omega
      · exact hm.apart e he f hf hef }

theorem holds_merged_iff (h : MergeInv S a index data m.entries st)
    (hcached : st.cached = true) (p : ℕ) :
    Holds ((m.eraseAll st.removeList).insert st.dataLft st.dataCpy) p ↔
      Holds m p ∨ (index ≤ p ∧ p < index + data.length) := by
  have hrgt := h.dataRgt_eq
  constructor
  · rintro ⟨e, he, hle, hlt⟩
    rcases (mem_merged_iff st e).mp he with rfl | ⟨he, -, -⟩
    · simp only at hle hlt
      rcases h.cover p hle (by omega) with hdata | ⟨d, hd, -, hrest⟩
      · exact Or.inr hdata
      · exact Or.inl ⟨d, hd, hrest⟩
    · exact Or.inl ⟨e, he, hle, hlt⟩
  · have hself : (st.dataLft, st.dataCpy) ∈
        (m.eraseAll st.removeList).insert st.dataLft st.dataCpy := by simp
    have hlft := h.lft_le
    have hle_rgt := h.le_rgt
    rintro (⟨e, he, hle, hlt⟩ | ⟨hle, hlt⟩)
    · by_cases hremoved : e.1 ∈ st.removeList
      · obtain ⟨d, hd, hkey, hdl, hdr⟩ := h.removed e.1 hremoved
        obtain rfl := m.eq_of_key_eq d e hd he hkey
        exact ⟨_, hself, by simp only; omega, by simp only; omega⟩
      · by_cases hkey : e.1 = st.dataLft
        · rcases h.kept hcached e he hremoved with hside | hside <;> omega
        · exact ⟨e, (mem_merged_iff st e).mpr (Or.inr ⟨he, hremoved, hkey⟩), hle, hlt⟩
    · exact ⟨_, hself, by simp only; omega, by simp only; omega⟩

end Merged

/-- `merge_segments` touches the map alone. -/
theorem mergeSegments_eq (r : StreamReassembler) (index : ℕ) (data : List UInt8) :
    ∃ m, r.mergeSegments index data = { r with segments := m } := by
  unfold mergeSegments
  simp only
  split_ifs
  · exact ⟨_, rfl⟩
  · exact ⟨_, rfl⟩

/-- Merging a slice behind the assembled index keeps the map separated. -/
theorem separated_mergeSegments (r : StreamReassembler) (S : List UInt8) (index : ℕ)
    (data : List UInt8) (hm : Separated S r.assembleIdx r.segments)
    (hslice : IsSlice S index data) (ha : r.assembleIdx < index)
    (hbound : index + data.length < 2 ^ 64) :
    Separated S r.assembleIdx (r.mergeSegments index data).segments := by
  have h := mergeInv_loop S r.assembleIdx index data r.segments hm hslice ha hbound
  unfold mergeSegments
  simp only
  split_ifs with hcached
  · exact separated_merged hm h hcached
  · rw [Bool.not_eq_true] at hcached
    rw [(h.given_up hcached).1]
    simpa [SortedMap.eraseAll] using hm

/-- The merged map covers what the map and the substring covered. -/
theorem holds_mergeSegments_iff (r : StreamReassembler) (S : List UInt8) (index : ℕ)
    (data : List UInt8) (hm : Separated S r.assembleIdx r.segments)
    (hslice : IsSlice S index data) (ha : r.assembleIdx < index)
    (hbound : index + data.length < 2 ^ 64) (p : ℕ) :
    Holds (r.mergeSegments index data).segments p ↔
      Holds r.segments p ∨ (index ≤ p ∧ p < index + data.length) := by
  have h := mergeInv_loop S r.assembleIdx index data r.segments hm hslice ha hbound
  unfold mergeSegments
  simp only
  split_ifs with hcached
  · exact holds_merged_iff h hcached p
  · rw [Bool.not_eq_true] at hcached
    obtain ⟨hnil, e, he, hle, hge⟩ := h.given_up hcached
    have hsame : r.segments.eraseAll (List.foldl mergeRound (mergeStart index data)
        r.segments.entries).removeList = r.segments := by
      rw [hnil]
      simp [SortedMap.eraseAll]
    simp only [hsame]
    constructor
    · exact Or.inl
    · rintro (hp | hp)
      · exact hp
      · exact ⟨e, he, by omega, by omega⟩

end StreamReassembler

end NetworkLabs
