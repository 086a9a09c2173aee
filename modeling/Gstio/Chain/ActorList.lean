import Gstio.Lib.FlatSet
import Gstio.Chain.Name

/-!
# The actor lists of the controller (`controller_impl::check_actor_list`)

A node may be configured with an actor whitelist or an actor blacklist, `flat_set`s of account names. The actors
that authorize a transaction must all be on a non-empty whitelist (`actor_whitelist_exception`); with no whitelist,
none of them may be on the blacklist (`actor_blacklist_exception`). The source computes neither the inclusion nor the
intersection: it compares the extents of the two sets, then walks the actors, each `std::lower_bound` starting where
the previous one ended, and stops at the first answer.

* `subsetLoop_iff`, `intersectsLoop_iff`: the two walks decide inclusion and intersection;
* `check_actor_list_sets`: the check throws exactly as the set operations say, with the actors its message names.
-/

namespace Gstio.Chain

open FlatSet

/-- The fields of `controller::config` that `check_actor_list` reads. -/
structure ActorListConfig where
  actorWhitelist : FlatSet Name
  actorBlacklist : FlatSet Name

/-- The exceptions of `check_actor_list`, with the actors their messages list. -/
inductive ActorListError
  /-- `actor_whitelist_exception`: "authorizing actor(s) in transaction are not on the actor whitelist: ${actors}" -/
  | actorWhitelist (actors : List Name)
  /-- `actor_blacklist_exception`: "authorizing actor(s) in transaction are on the actor blacklist: ${actors}" -/
  | actorBlacklist (actors : List Name)
  deriving DecidableEq, Repr

/-- The loop of the whitelist check, its next search starting at `rest`: an actor not at its lower bound ends it
with `false`; a found one moves the start past it. -/
def subsetLoop : List Name → List Name → Bool
  | [], _ => true
  | actor :: actors, rest =>
    match lowerBound rest actor with
    | [] => false
    | w :: rest' => if w ≠ actor then false else subsetLoop actors rest'

/-- The loop of the blacklist check: the end of the blacklist ends it with no intersection, an actor at its lower
bound with one; otherwise the next search starts at the lower bound. -/
def intersectsLoop : List Name → List Name → Bool
  | [], _ => false
  | actor :: actors, rest =>
    match lowerBound rest actor with
    | [] => false
    | b :: rest' => if b = actor then true else intersectsLoop actors (b :: rest')

/-- `*actors.cbegin() >= *whitelist.cbegin() && *actors.crbegin() <= *whitelist.crbegin()`, on non-empty sets. -/
def withinExtents (actors whitelist : List Name) : Bool :=
  match actors.head?, actors.getLast?, whitelist.head?, whitelist.getLast? with
  | some a₀, some a₁, some w₀, some w₁ => decide (a₀ ≥ w₀) && decide (a₁ ≤ w₁)
  | _, _, _, _ => false

/-- `*actors.cbegin() <= *blacklist.crbegin() && *actors.crbegin() >= *blacklist.cbegin()`, on non-empty sets. -/
def overlapsExtents (actors blacklist : List Name) : Bool :=
  match actors.head?, actors.getLast?, blacklist.head?, blacklist.getLast? with
  | some a₀, some a₁, some b₀, some b₁ => decide (a₀ ≤ b₁) && decide (a₁ ≥ b₀)
  | _, _, _, _ => false

/-- `check_actor_list`. -/
def checkActorList (conf : ActorListConfig) (actors : FlatSet Name) : Except ActorListError Unit :=
  if actors.toList.length = 0 then pure ()
  else if conf.actorWhitelist.toList.length > 0 then
    let whitelist := conf.actorWhitelist.toList
    let isSubset := withinExtents actors.toList whitelist && subsetLoop actors.toList whitelist
    if isSubset then pure () else throw (.actorWhitelist (setDifference actors.toList whitelist))
  else if conf.actorBlacklist.toList.length > 0 then
    let blacklist := conf.actorBlacklist.toList
    let intersects := overlapsExtents actors.toList blacklist && intersectsLoop actors.toList blacklist
    if !intersects then pure () else throw (.actorBlacklist (setIntersection actors.toList blacklist))
  else pure ()

/-! ## The walks -/

section Walks

variable {actors rest : List Name}

/-- The whitelist walk decides inclusion: the actors after a found one are above it, so they are in the rest of the
whitelist exactly when they are in all of it. -/
theorem subsetLoop_iff (ha : actors.Pairwise (· < ·)) (hr : rest.Pairwise (· < ·)) :
    subsetLoop actors rest = true ↔ ∀ a ∈ actors, a ∈ rest := by
  induction actors generalizing rest with
  | nil => simp [subsetLoop]
  | cons actor actors ih =>
    obtain ⟨hlt, ha'⟩ := List.pairwise_cons.mp ha
    rw [subsetLoop, List.forall_mem_cons]
    cases hlb : lowerBound rest actor with
    | nil =>
      have hnot : actor ∉ rest := fun h => by
        simpa [hlb] using (mem_lowerBound_iff hr).mpr ⟨h, le_refl actor⟩
      simp [hnot]
    | cons w rest' =>
      have hmem := mem_iff_of_lowerBound_eq_cons hr hlb
      by_cases hw : w = actor
      · subst hw
        have hr' : rest'.Pairwise (· < ·) :=
          (List.pairwise_cons.mp (hlb ▸ hr.sublist (lowerBound_suffix rest w).sublist)).2
        simp only [ne_eq, not_true_eq_false, if_false, ih ha' hr', hmem, true_and]
        exact forall₂_congr fun b hb => mem_tail_iff_of_lowerBound_eq_cons hr hlb (hlt b hb)
      · simp [hw, hmem]

/-- The blacklist walk decides intersection: a search that starts at the lower bound of an earlier actor misses
nothing, since every later actor is above it. -/
theorem intersectsLoop_iff (ha : actors.Pairwise (· < ·)) (hr : rest.Pairwise (· < ·)) :
    intersectsLoop actors rest = true ↔ ∃ a ∈ actors, a ∈ rest := by
  induction actors generalizing rest with
  | nil => simp [intersectsLoop]
  | cons actor actors ih =>
    obtain ⟨hlt, ha'⟩ := List.pairwise_cons.mp ha
    rw [intersectsLoop]
    simp only [List.mem_cons, or_and_right, exists_or, exists_eq_left]
    cases hlb : lowerBound rest actor with
    | nil =>
      -- the whole blacklist is below `actor`, and so below every actor
      have hbelow := (lowerBound_eq_nil_iff hr).mp hlb
      simp only [Bool.false_eq_true, false_iff, not_or, not_exists, not_and]
      refine ⟨fun h => lt_irrefl _ (hbelow actor h), fun b hb h => ?_⟩
      exact lt_asymm (hlt b hb) (hbelow b h)
    | cons b rest' =>
      have hmem := mem_iff_of_lowerBound_eq_cons hr hlb
      by_cases hb : b = actor
      · simp [hb, hmem]
      · have hr' : (b :: rest').Pairwise (· < ·) := hlb ▸ hr.sublist (lowerBound_suffix rest actor).sublist
        simp only [hb, if_false, ih ha' hr', hmem, false_or]
        refine exists_congr fun c => and_congr_right fun hc => ?_
        rw [← hlb, mem_lowerBound_iff hr]
        exact ⟨fun h => h.1, fun h => ⟨h, le_of_lt (hlt c hc)⟩⟩

/-- An inclusion passes the extents check. -/
theorem withinExtents_of_subset {whitelist : List Name} (hw : whitelist.Pairwise (· < ·)) (hne : actors ≠ [])
    (hsub : ∀ a ∈ actors, a ∈ whitelist) : withinExtents actors whitelist = true := by
  obtain ⟨a₀, ha₀⟩ := Option.isSome_iff_exists.mp (List.isSome_head?.mpr hne)
  obtain ⟨a₁, ha₁⟩ := Option.isSome_iff_exists.mp (List.getLast?_isSome.mpr hne)
  have hw₀ := hsub a₀ (List.mem_of_head? ha₀)
  have hw₁ := hsub a₁ (List.mem_of_getLast? ha₁)
  obtain ⟨w₀, hf⟩ := Option.isSome_iff_exists.mp (List.isSome_head?.mpr (List.ne_nil_of_mem hw₀))
  obtain ⟨w₁, hl⟩ := Option.isSome_iff_exists.mp (List.getLast?_isSome.mpr (List.ne_nil_of_mem hw₀))
  rw [withinExtents, ha₀, ha₁, hf, hl, Bool.and_eq_true, decide_eq_true_eq, decide_eq_true_eq]
  exact ⟨head?_le hw hf hw₀, le_getLast? hw hl hw₁⟩

/-- An intersection passes the extents check. -/
theorem overlapsExtents_of_mem {blacklist : List Name} (ha : actors.Pairwise (· < ·))
    (hb : blacklist.Pairwise (· < ·)) (hmem : ∃ a ∈ actors, a ∈ blacklist) :
    overlapsExtents actors blacklist = true := by
  obtain ⟨a, haa, hab⟩ := hmem
  obtain ⟨a₀, ha₀⟩ := Option.isSome_iff_exists.mp (List.isSome_head?.mpr (List.ne_nil_of_mem haa))
  obtain ⟨a₁, ha₁⟩ := Option.isSome_iff_exists.mp (List.getLast?_isSome.mpr (List.ne_nil_of_mem haa))
  obtain ⟨b₀, hf⟩ := Option.isSome_iff_exists.mp (List.isSome_head?.mpr (List.ne_nil_of_mem hab))
  obtain ⟨b₁, hl⟩ := Option.isSome_iff_exists.mp (List.getLast?_isSome.mpr (List.ne_nil_of_mem hab))
  rw [overlapsExtents, ha₀, ha₁, hf, hl, Bool.and_eq_true, decide_eq_true_eq, decide_eq_true_eq]
  -- the common actor lies in both ranges
  exact ⟨le_trans (head?_le ha ha₀ haa) (le_getLast? hb hl hab),
    le_trans (head?_le hb hf hab) (le_getLast? ha ha₁ haa)⟩

/-- The whitelist test of the source, extents and walk, is inclusion. -/
theorem isSubset_iff {whitelist : List Name} (ha : actors.Pairwise (· < ·)) (hw : whitelist.Pairwise (· < ·))
    (hne : actors ≠ []) :
    (withinExtents actors whitelist && subsetLoop actors whitelist) = true ↔ actors ⊆ whitelist := by
  rw [Bool.and_eq_true, subsetLoop_iff ha hw]
  exact ⟨fun h => h.2, fun h => ⟨withinExtents_of_subset hw hne h, h⟩⟩

/-- The blacklist test of the source, extents and walk, is intersection. -/
theorem intersects_iff {blacklist : List Name} (ha : actors.Pairwise (· < ·)) (hb : blacklist.Pairwise (· < ·)) :
    (overlapsExtents actors blacklist && intersectsLoop actors blacklist) = true ↔ ∃ a ∈ actors, a ∈ blacklist := by
  rw [Bool.and_eq_true, intersectsLoop_iff ha hb]
  exact ⟨fun h => h.2, fun h => ⟨overlapsExtents_of_mem ha hb h, h⟩⟩

end Walks

/-- **`check_actor_list` is the check on sets**: it throws `actor_whitelist_exception` for actors not all on a
non-empty whitelist, naming those missing, and otherwise `actor_blacklist_exception` for actors on the blacklist when
there is no whitelist, naming them. -/
theorem check_actor_list_sets (conf : ActorListConfig) (actors : FlatSet Name) :
    checkActorList conf actors =
      if actors.toList ≠ [] ∧ conf.actorWhitelist.toList ≠ [] ∧ ¬ actors.toList ⊆ conf.actorWhitelist.toList then
        .error (.actorWhitelist (setDifference actors.toList conf.actorWhitelist.toList))
      else if actors.toList ≠ [] ∧ conf.actorWhitelist.toList = [] ∧
          ∃ a ∈ actors.toList, a ∈ conf.actorBlacklist.toList then
        .error (.actorBlacklist (setIntersection actors.toList conf.actorBlacklist.toList))
      else .ok () := by
  unfold checkActorList
  by_cases hempty : actors.toList = []
  · simp [hempty, pure, Except.pure]
  · have hsubset := isSubset_iff actors.sorted conf.actorWhitelist.sorted hempty
    have hinter := intersects_iff actors.sorted conf.actorBlacklist.sorted
    by_cases hwl : conf.actorWhitelist.toList = []
    · -- no whitelist: only the blacklist is checked
      by_cases hbl : conf.actorBlacklist.toList = []
      · simp [hempty, hwl, hbl, pure, Except.pure]
      · simp only [List.length_eq_zero_iff, hempty, hwl, hbl, if_false, List.length_nil, gt_iff_lt, lt_irrefl,
          List.length_pos_iff, ne_eq, not_false_eq_true, if_true, not_true_eq_false, false_and, and_false,
          true_and]
        cases h : (overlapsExtents actors.toList conf.actorBlacklist.toList &&
            intersectsLoop actors.toList conf.actorBlacklist.toList)
        · rw [if_neg (fun hx => absurd (hinter.mpr hx) (by simp [h]))]
          rfl
        · rw [if_pos (hinter.mp h)]
          rfl
    · simp only [List.length_eq_zero_iff, hempty, hwl, if_false, List.length_pos_iff, ne_eq, not_false_eq_true,
        if_true, true_and, false_and, and_false]
      cases h : (withinExtents actors.toList conf.actorWhitelist.toList &&
          subsetLoop actors.toList conf.actorWhitelist.toList)
      · rw [if_pos (fun hx => absurd (hsubset.mpr hx) (by simp [h]))]
        rfl
      · rw [if_neg (not_not.mpr (hsubset.mp h))]
        rfl

example : checkActorList ⟨⟨[⟨1⟩, ⟨3⟩], by decide⟩, ⟨[], by decide⟩⟩ ⟨[⟨1⟩, ⟨2⟩], by decide⟩ =
    .error (.actorWhitelist [⟨2⟩]) := by decide

end Gstio.Chain
