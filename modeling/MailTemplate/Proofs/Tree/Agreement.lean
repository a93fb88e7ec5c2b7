import MailTemplate.Proofs.Component.Records
import MailTemplate.Proofs.Tree.Lookup

/-!
# Trees That Agree

Two trees agree if they have the same nodes, line heights being compared as numbers, so that the two
zeros are one. The counter for new ids is left out of the comparison.

* `Tree.unsigned` is the tree with the signs of its zeros dropped.
* `Tree.agrees_iff` says that two trees without a line height that is no number agree just if they
  have the same unsigned nodes; so agreement is an equivalence on them.
-/

namespace MailTemplate

/-! ## Values -/

namespace Binary

variable {f : Format}

/-- The number, where a zero loses its sign. -/
def Finite.unsigned (x : Finite f) : Finite f :=
  { x with negative := x.negative && x.significand != 0 }

namespace Value

variable {x y : Value f}

/-- The value, where a zero loses its sign. -/
def unsigned : Value f → Value f
  | .finite x => .finite x.unsigned
  | x => x

theorem agrees_iff (h : x ≠ .nan) : x.agrees y = true ↔ x.unsigned = y.unsigned := by
  cases x with
  | nan => exact absurd rfl h
  | infinite negative => cases y <;> simp [agrees, unsigned]
  | finite x =>
    cases y with
    | finite y =>
      simp only [agrees, unsigned, Finite.unsigned, Bool.and_eq_true, Bool.or_eq_true, beq_iff_eq,
        finite.injEq, Finite.mk.injEq]
      grind
    | _ => simp [agrees, unsigned]

theorem isFinite_unsigned (x : Value f) : x.unsigned.isFinite = x.isFinite := by
  cases x <;> rfl

/-- Neither zero is below zero. -/
theorem isNegative_unsigned (x : Value f) : x.unsigned.isNegative = x.isNegative := by
  cases x <;> simp [unsigned, Finite.unsigned, isNegative]

@[simp]
theorem unsigned_unsigned (x : Value f) : x.unsigned.unsigned = x.unsigned := by
  cases x <;> simp [unsigned, Finite.unsigned]

end Value

end Binary

/-! ## Records and nodes -/

/-- A text with the sign of a zero line height dropped. -/
def Paragraph.unsigned (r : Paragraph) : Paragraph :=
  { r with lineHeight := r.lineHeight.unsigned }

namespace Properties

variable {a b : Properties}

/-- The line height, if there is one, is a number. -/
def Numeric : Properties → Prop
  | .text r => r.lineHeight ≠ .nan
  | _ => True

/-- The record with the sign of a zero line height dropped. -/
def unsigned : Properties → Properties
  | .text r => .text r.unsigned
  | properties => properties

theorem Finite.numeric (h : a.Finite) : a.Numeric := by
  cases a with
  | text r =>
    intro hnan
    have hfinite : r.lineHeight.isFinite = true := h
    rw [hnan] at hfinite
    cases hfinite
  | _ => trivial

/-- The default line height is a number. -/
theorem numeric_defaults (kind : Kind) : kind.defaults.Numeric :=
  (inRange_defaults kind).finite.numeric

@[simp]
theorem kind_unsigned (properties : Properties) : properties.unsigned.kind = properties.kind := by
  cases properties <;> rfl

@[simp]
theorem unsigned_unsigned (properties : Properties) :
    properties.unsigned.unsigned = properties.unsigned := by
  cases properties <;> simp [unsigned, Paragraph.unsigned]

theorem agrees_iff (h : a.Numeric) : a.agrees b = true ↔ a.unsigned = b.unsigned := by
  cases a with
  | text r =>
    cases b with
    | text s =>
      have hline := Binary.Value.agrees_iff (y := s.lineHeight) h
      obtain ⟨text, fontSize, color, fontWeight, textAlign, lineHeight, padding⟩ := r
      obtain ⟨text', fontSize', color', fontWeight', textAlign', lineHeight', padding'⟩ := s
      simp only [agrees, unsigned, Paragraph.unsigned, Bool.and_eq_true, beq_iff_eq, hline,
        Properties.text.injEq, Paragraph.mk.injEq]
      tauto
    | _ => simp [agrees, unsigned]
  | _ => cases b <;> simp [agrees, unsigned]

end Properties

namespace Node

variable {m n : Node}

/-- The node with the sign of a zero line height dropped. -/
def unsigned (node : Node) : Node :=
  { node with properties := node.properties.unsigned }

@[simp]
theorem parent_unsigned (node : Node) : node.unsigned.parent = node.parent := rfl

@[simp]
theorem childList_unsigned (node : Node) : node.unsigned.childList = node.childList := rfl

@[simp]
theorem kind_unsigned (node : Node) : node.unsigned.kind = node.kind :=
  node.properties.kind_unsigned

@[simp]
theorem unsigned_unsigned (node : Node) : node.unsigned.unsigned = node.unsigned := by
  simp [unsigned]

theorem agrees_iff (h : m.properties.Numeric) : m.agrees n = true ↔ m.unsigned = n.unsigned := by
  cases m
  cases n
  simp [agrees, unsigned, Properties.agrees_iff h, and_assoc]

end Node

/-! ## Trees -/

/-- Two lists are compared entry by entry. -/
theorem all_zip_iff_map_eq {α β : Type} {f : α → β} {test : α → α → Bool} {as bs : List α}
    (hlength : as.length = bs.length)
    (htest : ∀ a ∈ as, ∀ b, test a b = true ↔ f a = f b) :
    ((as.zip bs).all fun (a, b) => test a b) = true ↔ as.map f = bs.map f := by
  induction as generalizing bs with
  | nil => simp [List.length_eq_zero_iff.1 hlength.symm]
  | cons a as ih =>
    cases bs with
    | nil => cases hlength
    | cons b bs =>
      have hrest := ih (Nat.succ.inj hlength) fun a hmem => htest a (List.mem_cons_of_mem _ hmem)
      simp only [List.zip_cons_cons, List.all_cons, Bool.and_eq_true, List.map_cons,
        List.cons.injEq, hrest, htest a List.mem_cons_self b]

namespace Tree

variable {tree a b : Tree}

/-- All line heights are numbers. -/
def Numeric (tree : Tree) : Prop :=
  ∀ ⦃id : NodeId⦄ ⦃node : Node⦄, tree.nodes[id]? = some node → node.properties.Numeric

theorem Numeric.insert_fresh (h : tree.Numeric) (id : NodeId) (parent : Option NodeId)
    (kind : Kind) : (tree.insert id (.fresh parent kind.defaults)).Numeric := by
  intro other found hfound
  rw [nodes_insert, getElem?_insert_eq] at hfound
  split at hfound
  · cases hfound
    exact Properties.numeric_defaults kind
  · exact h hfound

theorem numeric_empty : Tree.empty.Numeric := by
  have hnone : (⟨∅, 1⟩ : Tree).Numeric := fun _ _ hget => absurd hget getElem?_empty_ne_some
  exact hnone.insert_fresh rootId none .root

/-- The tree with the signs of its zero line heights dropped. -/
def unsigned (tree : Tree) : Tree :=
  { tree with nodes := tree.nodes.map fun _ node => node.unsigned }

@[simp]
theorem nextNumber_unsigned (tree : Tree) : tree.unsigned.nextNumber = tree.nextNumber := rfl

@[simp]
theorem getElem?_unsigned (tree : Tree) (id : NodeId) :
    tree.unsigned.nodes[id]? = (tree.nodes[id]?).map Node.unsigned :=
  Std.ExtTreeMap.getElem?_map

/-- Two maps are the same if they have the same ids, and the same values in the order of ids. -/
theorem nodes_eq_iff {nodes nodes' : Nodes} :
    nodes = nodes' ↔ nodes.keys = nodes'.keys ∧ nodes.values = nodes'.values := by
  constructor
  · rintro rfl
    exact ⟨rfl, rfl⟩
  · rintro ⟨hkeys, hvalues⟩
    rw [← Std.ExtTreeMap.toList_inj]
    rw [← Std.ExtTreeMap.map_fst_toList_eq_keys, ← Std.ExtTreeMap.map_fst_toList_eq_keys] at hkeys
    rw [values_eq_map_toList, values_eq_map_toList] at hvalues
    rw [← List.zip_unzip nodes.toList, ← List.zip_unzip nodes'.toList, List.unzip_eq_map,
      List.unzip_eq_map, hkeys, hvalues]

theorem values_unsigned (tree : Tree) :
    tree.unsigned.nodes.values = tree.nodes.values.map Node.unsigned := by
  simp only [unsigned, values_eq_map_toList, Std.ExtTreeMap.toList_map, List.map_map]
  rfl

/-- Trees without a line height that is no number agree just if they have the same nodes but for
the signs of zeros. -/
theorem agrees_iff (h : a.Numeric) : a.agrees b = true ↔ a.unsigned.nodes = b.unsigned.nodes := by
  have hkeys : ∀ tree : Tree, tree.unsigned.nodes.keys = tree.nodes.keys :=
    fun tree => Std.ExtTreeMap.keys_map
  rw [agrees, Bool.and_eq_true, beq_iff_eq, nodes_eq_iff, hkeys, hkeys, values_unsigned,
    values_unsigned]
  refine and_congr_right fun hids => all_zip_iff_map_eq ?_ fun node hmem other => ?_
  · have hlength : ∀ tree : Tree, tree.nodes.values.length = tree.nodes.keys.length := by
      intro tree
      rw [values_eq_map_toList, ← Std.ExtTreeMap.map_fst_toList_eq_keys]
      simp
    rw [hlength, hlength, hids]
  · rw [values_eq_map_toList] at hmem
    obtain ⟨⟨id, _⟩, hentry, rfl⟩ := List.mem_map.1 hmem
    exact Node.agrees_iff (h (mem_toList_iff.1 hentry))

/-- A tree agrees with another of the same nodes. -/
theorem agrees_of_eq (h : a.Numeric) (heq : a.nodes = b.nodes) : a.agrees b = true := by
  rw [agrees_iff h, unsigned, unsigned, heq]

theorem agrees_comm (ha : a.Numeric) (hb : b.Numeric) : a.agrees b = b.agrees a := by
  rw [Bool.eq_iff_iff, agrees_iff ha, agrees_iff hb]
  exact eq_comm

end Tree

end MailTemplate
