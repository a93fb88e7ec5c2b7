import MailTemplate.Proofs.Tree.Upkeep

/-!
# The Counter Is Ahead of All Ids

In a tree of some nodes, the counter for new ids is past every number at the end of an id, and it
stays so as long as ids are made by counting. So the first id that is tried is free, and no id comes
twice, not even after its node has been taken out.

* `number?_numbered` says that the number of a new id can be read off again.
* `Ahead` is what the counter has to be; `Changes.counted` follows it through a change of a tree.
* `Later` is what a tree has in common with one that came before it. It is a transitive relation
  for trees with the counter ahead (`Later.trans`).
-/

namespace MailTemplate

/-! ## Reading the number of an id -/

theorem afterLastHyphen_eq_none {cs : List Char} (h : '-' ∉ cs) : afterLastHyphen cs = none := by
  induction cs with
  | nil => rfl
  | cons c cs ih =>
    rw [List.mem_cons, not_or] at h
    rw [afterLastHyphen, ih h.2]
    exact if_neg (Ne.symm h.1)

theorem afterLastHyphen_append (front : List Char) {back : List Char} (h : '-' ∉ back) :
    afterLastHyphen (front ++ '-' :: back) = some back := by
  induction front with
  | nil =>
    rw [List.nil_append, afterLastHyphen, afterLastHyphen_eq_none h]
    exact if_pos rfl
  | cons c front ih => rw [List.cons_append, afterLastHyphen, ih]

theorem numberOf?_digitChars {n : Nat} (h : n ≤ maxNumber) :
    numberOf? (Binary.digitChars n) = some n := by
  have hdigit : ∀ c ∈ Binary.digitChars n, c.isDigit = true :=
    fun c => Nat.isDigit_of_mem_toDigits (by decide) (by decide)
  have hnonempty : (Binary.digitChars n).isEmpty = false :=
    List.isEmpty_eq_false_iff.2 Nat.toDigits_ne_nil
  have hvalue : (Binary.digitChars n).foldl (fun n c => n * 10 + (c.toNat - '0'.toNat)) 0 = n := by
    refine Eq.trans ?_ (Nat.ofDigitChars_ten_toDigits (n := n))
    simp only [Nat.ofDigitChars, Nat.mul_comm, Binary.digitChars]
  unfold numberOf?
  -- The first character is a digit and no plus, so all of them are read.
  split
  case h_1 rest hplus =>
    have hsign := hdigit '+' (hplus ▸ List.mem_cons_self)
    exact absurd hsign (by decide)
  case h_2 =>
    dsimp only
    rw [hnonempty, List.all_eq_true.2 hdigit, hvalue]
    simp [h]

/-- A new id has the number that it was made with. -/
theorem number?_numbered (kind : Kind) {n : Nat} (h : n ≤ maxNumber) :
    (kind.numbered n).number? = some n := by
  have hhyphen : '-' ∉ Binary.digitChars n := fun hmem =>
    absurd (Nat.isDigit_of_mem_toDigits (by decide) (by decide) hmem) (by decide)
  have hchars : (kind.numbered n).toList = kind.name.toList ++ '-' :: Binary.digitChars n := by
    simp [Kind.numbered, String.toList_append, String.toList_ofList]
  rw [NodeId.number?, hchars, afterLastHyphen_append _ hhyphen]
  exact numberOf?_digitChars h

namespace Tree

variable {tree next last : Tree} {made : List Making} {id : NodeId} {kind : Kind}

/-! ## The first id that is tried -/

/-- Unless it has come to its end, the counter is past the numbers of all ids. -/
def Ahead (tree : Tree) : Prop :=
  tree.nextNumber < maxNumber →
    ∀ id, tree.contains id = true → ∀ n, id.number? = some n → n < tree.nextNumber

theorem ahead_ofNodes (nodes : Nodes) : (ofNodes nodes).Ahead := by
  intro hend id hthere n hn
  have hmem : n ∈ nodes.keys.filterMap NodeId.number? :=
    List.mem_filterMap.2 ⟨id, Std.ExtTreeMap.mem_keys.2 hthere, hn⟩
  change firstNumber nodes.keys < maxNumber at hend
  show n < firstNumber nodes.keys
  unfold firstNumber at hend ⊢
  split at hend
  case h_1 largest hlargest =>
    have hle : n ≤ largest := (List.max?_eq_some_iff.1 hlargest).2 n hmem
    have hafter := lt_of_numberAfter_lt hend
    rw [numberAfter_of_lt (by omega)]
    omega
  case h_2 hnone =>
    rw [List.max?_eq_none_iff] at hnone
    rw [hnone] at hmem
    cases hmem

theorem Ahead.first_free (h : tree.Ahead) (hend : tree.nextNumber < maxNumber) (kind : Kind) :
    tree.contains (kind.numbered tree.nextNumber) = false := by
  by_contra hthere
  rw [Bool.not_eq_false] at hthere
  exact Nat.lt_irrefl _ (h hend _ hthere _ (number?_numbered kind hend.le))

theorem mint_of_free (hfree : tree.contains (kind.numbered tree.nextNumber) = false) :
    tree.mint kind = some
      (kind.numbered tree.nextNumber, { tree with nextNumber := numberAfter tree.nextNumber }) := by
  rw [mint, freeNumber?, hfree]
  rfl

/-- As long as the counter has not come to its end, there is a new id. -/
theorem Ahead.mint_eq (h : tree.Ahead) (hend : tree.nextNumber < maxNumber) (kind : Kind) :
    tree.mint kind = some
      (kind.numbered tree.nextNumber, { tree with nextNumber := tree.nextNumber + 1 }) := by
  rw [mint_of_free (h.first_free hend kind), numberAfter_of_lt hend]

/-! ## Counting through a change -/

/-- The ids are made with one number after the other, each the first that is tried, and the counter
stays ahead. -/
structure Counted (tree : Tree) (made : List Making) (next : Tree) : Prop where
  ahead : next.Ahead
  count : next.nextNumber = tree.nextNumber + made.length
  free : ∀ m ∈ made, m.tree.contains (m.kind.numbered m.tree.nextNumber) = false
  numbers : made.map (fun m => m.tree.nextNumber) = List.range' tree.nextNumber made.length

/-- A tree with fewer ids has the counter ahead as well. -/
theorem Ahead.mono (h : tree.Ahead) (hnumber : next.nextNumber = tree.nextNumber)
    (hids : ∀ id, next.contains id = true → tree.contains id = true) : next.Ahead := by
  intro hend id hthere n hn
  rw [hnumber] at hend ⊢
  exact h hend id (hids id hthere) n hn

theorem contains_insert_iff {node : Node} {other : NodeId} :
    (tree.insert id node).contains other = true ↔ other = id ∨ tree.contains other = true := by
  rw [contains_eq_isSome, contains_eq_isSome, nodes_insert, getElem?_insert_eq]
  split <;> simp [*]

theorem Ahead.make (h : tree.Ahead) (hend : tree.nextNumber < maxNumber) {minted : Tree}
    (hmint : tree.mint kind = some (id, minted)) (node : Node) : (minted.insert id node).Ahead := by
  rw [h.mint_eq hend kind] at hmint
  cases hmint
  intro _ id hthere n hn
  show n < tree.nextNumber + 1
  rcases contains_insert_iff.1 hthere with rfl | hold
  · rw [number?_numbered kind hend.le] at hn
    cases hn
    exact Nat.lt_succ_self _
  · exact Nat.lt_succ_of_lt (h hend id hold n hn)

theorem Changes.counted (h : Changes tree made next) (hahead : tree.Ahead)
    (hend : next.nextNumber < maxNumber) : Counted tree made next := by
  induction h with
  | refl =>
    refine ⟨hahead, rfl, ?_, rfl⟩
    intro m hmem
    cases hmem
  | @make made next minted kind id parent hmint h ih =>
    -- The counter never goes back, so it had not come to its end before this id either.
    have hnext : next.nextNumber < maxNumber :=
      Nat.lt_of_le_of_lt (nextNumber_le_of_mint hmint) hend
    obtain ⟨hahead', hcount, hfree, hnumbers⟩ := ih hnext
    have hfirst := hahead'.first_free hnext kind
    have hminted := hmint.symm.trans (hahead'.mint_eq hnext kind)
    refine ⟨hahead'.make hnext hmint _, ?_, ?_, ?_⟩
    · cases hminted
      rw [nextNumber_insert, hcount, List.length_append, List.length_singleton, Nat.add_assoc]
    · rintro m hmem
      rcases List.mem_append.1 hmem with hmem | hmem
      · exact hfree m hmem
      · rw [List.mem_singleton.1 hmem]
        exact hfirst
    · rw [List.map_append, List.map_singleton, hnumbers, List.length_append, List.length_singleton,
        List.range'_concat, Nat.one_mul, hcount]
  | @modify made next id change hchange h ih =>
    obtain ⟨hahead', hcount, hfree, hnumbers⟩ := ih hend
    refine ⟨hahead'.mono rfl fun other hthere => ?_, hcount, hfree, hnumbers⟩
    rw [contains_eq_isSome, nodes_modify, getElem?_modify_eq] at hthere
    rw [contains_eq_isSome]
    split at hthere
    · rwa [Option.isSome_map] at hthere
    · exact hthere
  | @erase next id h ih =>
    obtain ⟨hahead', hcount, hfree, hnumbers⟩ := ih hend
    refine ⟨hahead'.mono rfl fun other hthere => ?_, hcount, hfree, hnumbers⟩
    -- The number of an id that is taken out is not given back.
    obtain ⟨node, hget⟩ := contains_iff_exists.1 hthere
    exact contains_iff_exists.2 ⟨node, Forest.eraseAll_subset [id] hget⟩

theorem Changes.ahead (h : Changes tree made next) (hahead : tree.Ahead) : next.Ahead :=
  fun hend => (h.counted hahead hend).ahead hend

namespace Counted

variable {m : Making}

theorem id?_eq (h : Counted tree made next) (hmem : m ∈ made) :
    m.id? = some (m.kind.numbered m.tree.nextNumber) :=
  Making.id?_of_mint (mint_of_free (h.free m hmem))

/-- The number of an id that is made lies between the counters. -/
theorem number_bounds (h : Counted tree made next) (hmem : m ∈ made) :
    tree.nextNumber ≤ m.tree.nextNumber ∧ m.tree.nextNumber < next.nextNumber := by
  have hnumber : m.tree.nextNumber ∈ List.range' tree.nextNumber made.length :=
    h.numbers ▸ List.mem_map_of_mem hmem
  rw [List.mem_range'_1] at hnumber
  rwa [h.count]

theorem number?_eq (h : Counted tree made next) (hend : next.nextNumber < maxNumber)
    (hmem : m ∈ made) : m.id?.bind NodeId.number? = some m.tree.nextNumber := by
  rw [h.id?_eq hmem]
  exact number?_numbered m.kind ((h.number_bounds hmem).2.trans hend).le

/-- No id is made twice. -/
theorem nodup_ids (h : Counted tree made next) (hend : next.nextNumber < maxNumber) :
    (made.map Making.id?).Nodup := by
  -- The ids are told apart by their numbers, which are counted up.
  have hnumbers : (made.map Making.id?).map (fun id => id.bind NodeId.number?) =
      (List.range' tree.nextNumber made.length).map some := by
    rw [← h.numbers, List.map_map, List.map_map]
    exact List.map_congr_left fun m hmem => h.number?_eq hend hmem
  refine List.Nodup.of_map (fun id : Option NodeId => id.bind NodeId.number?) ?_
  rw [hnumbers]
  exact List.Nodup.map (Option.some_injective _) List.nodup_range'

end Counted

/-- An id that is made is in no tree whose counter has been passed by then. -/
theorem Ahead.not_contains_made {earlier : Tree} {m : Making} (h : earlier.Ahead)
    (hle : earlier.nextNumber ≤ tree.nextNumber) (hcounted : Counted tree made next)
    (hend : next.nextNumber < maxNumber) (hmem : m ∈ made) (hid : m.id? = some id) :
    earlier.contains id = false := by
  by_contra hthere
  rw [Bool.not_eq_false] at hthere
  obtain ⟨hfrom, hto⟩ := hcounted.number_bounds hmem
  have hnumber := hcounted.number?_eq hend hmem
  rw [hid] at hnumber
  have hlt := h (by omega) id hthere _ hnumber
  omega

/-! ## Trees one after the other -/

/-- What a tree has in common with one before it: an id in both is of one kind, and the number of an
id that is new had not been passed before. -/
structure Later (tree next : Tree) : Prop where
  counter : tree.nextNumber ≤ next.nextNumber
  kind_eq : ∀ {id : NodeId} {old new : Node}, tree.nodes[id]? = some old →
    next.nodes[id]? = some new → new.kind = old.kind
  counted : ∀ {id : NodeId} {new : Node}, tree.nodes[id]? = none → next.nodes[id]? = some new →
    tree.nextNumber < maxNumber ∧ ∃ n, id.number? = some n ∧ tree.nextNumber ≤ n

theorem Later.trans (h : Later tree next) (h' : Later next last) (hahead : tree.Ahead) :
    Later tree last where
  counter := h.counter.trans h'.counter
  kind_eq {id old new} hold hnew := by
    cases hmiddle : next.nodes[id]? with
    | some node => exact (h'.kind_eq hmiddle hnew).trans (h.kind_eq hold hmiddle)
    | none =>
      -- An id does not come back: its number had been passed before it went.
      exfalso
      obtain ⟨hend, n, hn, hle⟩ := h'.counted hmiddle hnew
      have hcounter := h.counter
      have hthere : tree.contains id = true := contains_iff_exists.2 ⟨old, hold⟩
      have hpassed := hahead (by omega) id hthere n hn
      omega
  counted {id new} hnone hnew := by
    cases hmiddle : next.nodes[id]? with
    | some node => exact h.counted hnone hmiddle
    | none =>
      obtain ⟨hend, n, hn, hle⟩ := h'.counted hmiddle hnew
      have hcounter := h.counter
      exact ⟨by omega, n, hn, by omega⟩

/-- A change makes a later tree, if the counter does not come to its end while ids are made. -/
theorem Changes.later (h : Changes tree made next) (hahead : tree.Ahead)
    (hids : made ≠ [] → next.nextNumber < maxNumber) : Later tree next where
  counter := h.keeps.counter
  kind_eq {id old new} hold hnew := by
    rcases h.old_or_made hnew with ⟨old', hold', hkind⟩ | ⟨m, hmem, hid, -⟩
    · rw [hold] at hold'
      cases hold'
      exact hkind
    · have hend := hids (List.ne_nil_of_mem hmem)
      have hfree := hahead.not_contains_made (Nat.le_refl _) (h.counted hahead hend) hend hmem hid
      rw [contains_eq_false_iff, hold] at hfree
      cases hfree
  counted {id new} hnone hnew := by
    rcases h.old_or_made hnew with ⟨old, hold, -⟩ | ⟨m, hmem, hid, -⟩
    · rw [hnone] at hold
      cases hold
    · have hend := hids (List.ne_nil_of_mem hmem)
      have hcounted := h.counted hahead hend
      obtain ⟨hfrom, hto⟩ := hcounted.number_bounds hmem
      have hnumber := hcounted.number?_eq hend hmem
      rw [hid] at hnumber
      exact ⟨by omega, _, hnumber, hfrom⟩

end Tree

end MailTemplate
