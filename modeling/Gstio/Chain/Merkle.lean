import Mathlib
import Gstio.Lib.PairLevels

/-!
# `merkle`

`merkle(ids)` hashes a vector of digests down to one: while more than one is left, an odd count gets its last
digest twice, the pairs are hashed in place (`ids[i] = hash(make_canonical_pair(ids[2i], ids[2i+1]))`) and the
vector is cut to half its size. An empty vector gives `digest_type()`.

The digests are any type with a default value, and `hashPair a b` stands for
`DigestType::hash(make_canonical_pair(a, b))`: the canonical pairing and the hash are the same for the batch and
the incremental tree, so nothing here depends on what they compute.

* `merklePass_eq_level`: a turn of the `while` loop is `PairLevels.level`; the in-place `for` loop reads each
  digest before it overwrites it (`getElem?_pairLoop`);
* `merkle_eq_levels`: `merkle` is the node of level `⌈log₂ n⌉` above the `n` digests.
-/

namespace Gstio.Chain

open PairLevels

variable {D : Type} [Inhabited D] (hashPair : D → D → D)

/-- The `for` loop of `merkle` after `k` turns: `ids[i] = hash(make_canonical_pair(ids[2i], ids[2i+1]))`, in
place, for `i < k`. -/
def pairLoop (ids : List D) : Nat → List D
  | 0 => ids
  | k + 1 =>
    let ids := pairLoop ids k
    ids.set k (hashPair (ids.getD (2 * k) default) (ids.getD (2 * k + 1) default))

/-- A turn of the `while` loop of `merkle`: `push_back(back())` on an odd count, the `for` loop, `resize(size/2)`. -/
def merklePass (ids : List D) : List D :=
  let ids := if ids.length % 2 = 1 then ids ++ [ids.getLastD default] else ids
  (pairLoop hashPair ids (ids.length / 2)).take (ids.length / 2)

theorem length_pairLoop (ids : List D) : ∀ k, (pairLoop hashPair ids k).length = ids.length
  | 0 => rfl
  | k + 1 => by rw [pairLoop, List.length_set, length_pairLoop ids k]

theorem length_merklePass (ids : List D) : (merklePass hashPair ids).length = (ids.length + 1) / 2 := by
  unfold merklePass
  split <;> simp [length_pairLoop] <;> omega

/-- The `while` loop of `merkle`. -/
def merkleLoop (ids : List D) : D :=
  if _ : 1 < ids.length then merkleLoop (merklePass hashPair ids) else ids.headD default
termination_by ids.length
decreasing_by
  rw [length_merklePass]
  omega

/-- `merkle`. -/
def merkle (ids : List D) : D :=
  if ids.length = 0 then default else merkleLoop hashPair ids

variable {hashPair}

/-- The `for` loop reads `ids[2i]` and `ids[2i+1]` before turn `2i` can overwrite them. -/
theorem getElem?_pairLoop (ids : List D) : ∀ k, 2 * k ≤ ids.length → ∀ i,
    (pairLoop hashPair ids k)[i]? =
      if i < k then some (hashPair (ids.getD (2 * i) default) (ids.getD (2 * i + 1) default)) else ids[i]?
  | 0, _, i => by simp [pairLoop]
  | k + 1, hk, i => by
    have ih := getElem?_pairLoop ids k (by omega)
    have hread : ∀ j, k ≤ j → (pairLoop hashPair ids k).getD j default = ids.getD j default := by
      intro j hj
      rw [List.getD_eq_getElem?_getD, ih j, if_neg (by omega), List.getD_eq_getElem?_getD]
    rw [pairLoop, List.getElem?_set, hread (2 * k) (by omega), hread (2 * k + 1) (by omega), length_pairLoop]
    by_cases hik : i = k
    · subst hik
      simp [show i < ids.length by omega]
    · rw [if_neg (Ne.symm hik), ih i]
      by_cases hi : i < k
      · rw [if_pos hi, if_pos (by omega)]
      · rw [if_neg hi, if_neg (by omega)]

/-- The `for` loop over an even count, cut to half: the pairs hashed. -/
theorem getElem?_pairHalf (E : List D) (heven : E.length % 2 = 0) (i : Nat) :
    ((pairLoop hashPair E (E.length / 2)).take (E.length / 2))[i]? =
      if i < E.length / 2 then some (hashPair (E.getD (2 * i) default) (E.getD (2 * i + 1) default)) else none := by
  rw [List.getElem?_take, getElem?_pairLoop _ _ (by omega)]
  split <;> simp_all

/-- A turn of the `while` loop computes the next level of the tree. -/
theorem merklePass_eq_level (ids : List D) : merklePass hashPair ids = level hashPair ids := by
  apply List.ext_getElem?
  intro i
  rw [getElem?_level]
  unfold merklePass
  split
  · rename_i hodd
    dsimp only
    have hlen : (ids ++ [ids.getLastD default]).length = ids.length + 1 := by simp
    rw [getElem?_pairHalf _ (by omega), hlen]
    by_cases hi : i < (ids.length + 1) / 2
    · rw [if_pos hi, List.getElem?_eq_getElem (by omega : 2 * i < ids.length), Option.map_some]
      by_cases hlast : 2 * i + 1 < ids.length
      · simp [List.getD_eq_getElem?_getD, List.getElem?_append_left, hlast, show 2 * i < ids.length by omega]
      · -- the pair of the last digest is the digest pushed back
        have h1 : 2 * i + 1 = ids.length := by omega
        simp [List.getD_eq_getElem?_getD, List.getElem?_append_left, show 2 * i < ids.length by omega,
          h1, List.getLastD_eq_getLast?,
          List.getLast?_eq_getElem?, show ids.length - 1 = 2 * i by omega]
    · rw [if_neg hi, List.getElem?_eq_none_iff.mpr (by omega : ids.length ≤ 2 * i)]
      rfl
  · rename_i heven
    dsimp only
    rw [getElem?_pairHalf _ (by omega)]
    by_cases hi : i < ids.length / 2
    · rw [if_pos hi, List.getElem?_eq_getElem (by omega : 2 * i < ids.length),
        List.getElem?_eq_getElem (by omega : 2 * i + 1 < ids.length)]
      simp [List.getD_eq_getElem?_getD, show 2 * i < ids.length by omega, show 2 * i + 1 < ids.length by omega]
    · rw [if_neg hi, List.getElem?_eq_none_iff.mpr (by omega : ids.length ≤ 2 * i)]
      rfl

/-- The `while` loop stops at level `⌈log₂ n⌉`, the first with one node. -/
theorem merkleLoop_eq_levels : ∀ n (ids : List D), ids.length = n → 1 ≤ n →
    merkleLoop hashPair ids = (levels hashPair (Nat.clog 2 n) ids).headD default := by
  intro n
  induction n using Nat.strong_induction_on with
  | _ n ih =>
    intro ids hlen hn
    rw [merkleLoop]
    split
    · have hpass := ih ((n + 1) / 2) (by omega) (merklePass hashPair ids)
        (by rw [length_merklePass, hlen]) (by omega)
      have hclog : Nat.clog 2 n = Nat.clog 2 ((n + 1) / 2) + 1 := by
        rw [Nat.clog_of_two_le (by omega) (show 2 ≤ n by omega), show n + 2 - 1 = n + 1 by omega]
      rw [hpass, merklePass_eq_level, ← levels_succ', hclog]
    · have hone : n = 1 := by omega
      subst hone
      rw [Nat.clog_one_right, levels_zero]

@[simp] theorem merkle_nil : merkle hashPair ([] : List D) = default := rfl

/-- `merkle` of `n ≥ 1` digests is the node of level `⌈log₂ n⌉`. -/
theorem merkle_eq_levels {ids : List D} (hne : ids ≠ []) :
    merkle hashPair ids = (levels hashPair (Nat.clog 2 ids.length) ids).headD default := by
  have hpos := List.length_pos_iff.mpr hne
  rw [merkle, if_neg (by omega)]
  exact merkleLoop_eq_levels ids.length ids rfl hpos

end Gstio.Chain
