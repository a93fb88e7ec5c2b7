import MailTemplate.Proofs.Tree.Lookup
import Mathlib.Data.Finset.Card
import Mathlib.Data.Nat.Find
import Mathlib.Logic.Function.Iterate

/-!
# New Ids

The counter for new ids never goes back, and a new id is the id of no node. The search passes taken
ids only, and there are fewer of those than it has tries; so it comes to nothing just if it would
never end, which takes a counter that has come to its end.

* `minted` lists what a new id comes with.
* `mint_eq_none_iff` says when there is no new id (`Exhausted`), and `mint_isSome_of_le` that there
  is one while more numbers are left than there are nodes.
* `numbered_injective` says that numbers make different ids of a kind.
-/

namespace MailTemplate

/-! ## Counting -/

theorem le_numberAfter (n : Nat) : n ≤ numberAfter n := by
  unfold numberAfter
  split <;> omega

theorem numberAfter_of_lt {n : Nat} (h : n < maxNumber) : numberAfter n = n + 1 := by
  rw [numberAfter, if_pos h]

theorem lt_of_numberAfter_lt {n : Nat} (h : numberAfter n < maxNumber) : n + 1 < maxNumber := by
  unfold numberAfter at h
  split at h <;> omega

/-- Counting goes up one by one as long as it does not pass the largest number. -/
theorem iterate_numberAfter_of_le {n steps : Nat} (h : n + steps ≤ maxNumber) :
    numberAfter^[steps] n = n + steps := by
  induction steps with
  | zero => rfl
  | succ steps ih =>
    rw [Function.iterate_succ_apply', ih (by omega), numberAfter_of_lt (by omega), Nat.add_assoc]

/-- Counting stays where it is once it has come to the largest number. -/
theorem iterate_numberAfter_of_ge {n first steps : Nat} (h : maxNumber ≤ n + first)
    (hle : first ≤ steps) : numberAfter^[steps] n = numberAfter^[first] n := by
  have hend : maxNumber ≤ numberAfter^[first] n := by
    induction first generalizing n with
    | zero => exact h
    | succ first ih =>
      rw [Function.iterate_succ_apply]
      refine ih ?_ (by omega)
      unfold numberAfter
      split <;> omega
  -- Whatever comes after `first` steps is a fixed point of counting.
  have hfixed : numberAfter (numberAfter^[first] n) = numberAfter^[first] n :=
    if_neg (Nat.not_lt.2 hend)
  rw [← Nat.sub_add_cancel hle, Function.iterate_add_apply]
  exact Function.iterate_fixed hfixed _

/-- Different numbers make different ids of a kind. -/
theorem Kind.numbered_injective (kind : Kind) : Function.Injective kind.numbered := by
  intro m n h
  have hdigits : Nat.toDigits 10 m = Nat.toDigits 10 n := by
    rw [Kind.numbered, Kind.numbered, String.append_right_inj] at h
    exact String.ofList_injective h
  -- The number is what its digits read as.
  rw [← Nat.ofDigitChars_ten_toDigits (n := m), hdigits, Nat.ofDigitChars_ten_toDigits]

namespace Tree

variable {tree next : Tree} {kind : Kind} {id : NodeId}

/-! ## A new id -/

/-- The search gives a free number, which is not before the one that it starts from. -/
theorem freeNumber?_eq_some {tries n m : Nat}
    (h : tree.freeNumber? kind tries n = some m) :
    n ≤ m ∧ tree.contains (kind.numbered m) = false := by
  induction tries generalizing n with
  | zero => cases h
  | succ tries ih =>
    rw [freeNumber?] at h
    split at h
    case isTrue =>
      obtain ⟨hle, hfree⟩ := ih h
      exact ⟨(le_numberAfter n).trans hle, hfree⟩
    case isFalse hfree =>
      cases h
      exact ⟨Nat.le_refl _, Bool.eq_false_of_not_eq_true hfree⟩

/-- What a new id comes with: the nodes stay, no node has the id, and the counter is past its
number. -/
theorem minted (h : tree.mint kind = some (id, next)) :
    next.nodes = tree.nodes ∧ tree.nodes[id]? = none ∧
      ∃ n, tree.nextNumber ≤ n ∧ id = kind.numbered n ∧ next.nextNumber = numberAfter n := by
  obtain ⟨n, hn, hmade⟩ := Option.bind_eq_some_iff.1 h
  cases hmade
  obtain ⟨hle, hfree⟩ := freeNumber?_eq_some hn
  exact ⟨rfl, contains_eq_false_iff.1 hfree, n, hle, rfl, rfl⟩

theorem nodes_of_mint (h : tree.mint kind = some (id, next)) : next.nodes = tree.nodes :=
  (minted h).1

theorem free_of_mint (h : tree.mint kind = some (id, next)) : tree.nodes[id]? = none :=
  (minted h).2.1

theorem nextNumber_le_of_mint (h : tree.mint kind = some (id, next)) :
    tree.nextNumber ≤ next.nextNumber := by
  obtain ⟨-, -, n, hle, -, hnumber⟩ := minted h
  exact hnumber ▸ hle.trans (le_numberAfter n)

/-! ## No new id -/

/-- The search comes to nothing just if all numbers that it tries are taken. -/
theorem freeNumber?_eq_none_iff {tries n : Nat} :
    tree.freeNumber? kind tries n = none ↔
      ∀ steps < tries, tree.contains (kind.numbered (numberAfter^[steps] n)) = true := by
  induction tries generalizing n with
  | zero => exact iff_of_true rfl fun steps hlt => absurd hlt (Nat.not_lt_zero steps)
  | succ tries ih =>
    rw [freeNumber?, Nat.forall_lt_succ_left]
    simp only [Function.iterate_zero_apply, Function.iterate_succ_apply]
    split
    case isTrue htaken => rw [ih, and_iff_right htaken]
    case isFalse hfree => exact iff_of_false (fun h => nomatch h) fun h => hfree h.1

/-- Ids of successive numbers are not all taken if there are more of them than nodes. -/
theorem le_size_of_taken {n count : Nat}
    (htaken : ∀ i < count, tree.contains (kind.numbered (n + i)) = true) : count ≤ tree.size := by
  -- The numbers are mapped to ids of nodes, and no two of them to the same one.
  have hmaps : Set.MapsTo (fun i => kind.numbered (n + i)) (Finset.range count)
      tree.nodes.keys.toFinset := by
    intro i hi
    rw [Finset.mem_coe, Finset.mem_range] at hi
    have hthere := htaken i hi
    obtain ⟨node, hnode⟩ := contains_iff_exists.1 hthere
    exact List.mem_toFinset.2 (mem_keys_of_eq_some hnode)
  have hinj : Set.InjOn (fun i => kind.numbered (n + i)) (Finset.range count) :=
    fun i _ j _ heq => Nat.add_left_cancel (kind.numbered_injective heq)
  have hcard := Finset.card_le_card_of_injOn _ hmaps hinj
  have hkeys : tree.nodes.keys.toFinset.card ≤ tree.size :=
    (List.toFinset_card_le _).trans Std.ExtTreeMap.length_keys.le
  rw [Finset.card_range] at hcard
  exact hcard.trans hkeys

/-- No number that the counter comes to has a free id of a kind: a search for one never ends. -/
def Exhausted (tree : Tree) (kind : Kind) : Prop :=
  ∀ steps, tree.contains (kind.numbered (numberAfter^[steps] tree.nextNumber)) = true

/-- The search never ends only if the largest number is taken. -/
theorem Exhausted.contains_largest (h : tree.Exhausted kind) (hle : tree.nextNumber ≤ maxNumber) :
    tree.contains (kind.numbered maxNumber) = true := by
  have hend := h (maxNumber - tree.nextNumber)
  rwa [iterate_numberAfter_of_le (Nat.add_sub_of_le hle).le, Nat.add_sub_of_le hle] at hend

/-- If more numbers are left than there are nodes, the id of one of them is free. -/
theorem exists_free_of_le (kind : Kind) (h : tree.nextNumber + tree.size ≤ maxNumber) :
    ∃ steps ≤ tree.size,
      ¬ tree.contains (kind.numbered (numberAfter^[steps] tree.nextNumber)) = true := by
  by_contra hnone
  push Not at hnone
  have htaken : ∀ steps < tree.size + 1,
      tree.contains (kind.numbered (tree.nextNumber + steps)) = true := by
    intro steps hlt
    rw [← iterate_numberAfter_of_le (by omega)]
    exact hnone steps (Nat.le_of_lt_succ hlt)
  exact Nat.not_succ_le_self _ (le_size_of_taken htaken)

/-- There is no new id just if a search for one never ends: the tries are enough. -/
theorem mint_eq_none_iff : tree.mint kind = none ↔ tree.Exhausted kind := by
  have hmint : tree.mint kind = none ↔
      tree.freeNumber? kind (tree.size + 1) tree.nextNumber = none := by
    unfold mint
    cases tree.freeNumber? kind (tree.size + 1) tree.nextNumber with
    | none => exact iff_of_true rfl rfl
    | some n => exact iff_of_false (fun h => nomatch h) fun h => nomatch h
  rw [hmint, freeNumber?_eq_none_iff]
  refine ⟨fun htried steps => ?_, fun h steps _ => h steps⟩
  by_cases hle : steps ≤ tree.size
  · exact htried steps (Nat.lt_succ_of_le hle)
  · -- The search has come to the largest number within its tries, and counting stays there.
    have hend : ¬ tree.nextNumber + tree.size ≤ maxNumber := by
      intro hroom
      obtain ⟨first, hfirst, hfree⟩ := exists_free_of_le kind hroom
      exact hfree (htried first (Nat.lt_succ_of_le hfirst))
    rw [iterate_numberAfter_of_ge (Nat.le_of_not_le hend) (Nat.le_of_not_le hle)]
    exact htried tree.size (Nat.lt_succ_self _)

/-- There is a new id as long as more numbers are left than there are nodes. -/
theorem mint_isSome_of_le (kind : Kind) (h : tree.nextNumber + tree.size ≤ maxNumber) :
    (tree.mint kind).isSome = true := by
  rw [Option.isSome_iff_ne_none, ne_eq, mint_eq_none_iff]
  intro hexhausted
  obtain ⟨steps, -, hfree⟩ := exists_free_of_le kind h
  exact hfree (hexhausted steps)

end Tree

end MailTemplate
