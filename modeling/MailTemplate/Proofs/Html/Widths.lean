import MailTemplate.Html.Fragment
import Mathlib.Algebra.Order.Ring.Int
import Mathlib.Tactic.Linarith

/-!
# Widths as Integers

Widths are computed in words that stay at the end of their range. What comes of it is what exact
integers give: a sum or a product that is too large for a word is taken off a word, and leaves zero
either way.

* `Page.exactContentWidth`, `Padding.exactInner` and `Columns.exactColumnWidth` are the formulas.
* `Page.natCast_contentWidth`, `natCast_innerWidth` and `Columns.natCast_columnWidth` say that the
  words are the values of the formulas.
* `Columns.fills_exactColumnWidth` says how much of a row its columns and gaps take.
-/

namespace MailTemplate

/-! ## Words that stay in their range -/

/-- The largest word. -/
theorem toNat_ofNat_size : (UInt32.ofNat (UInt32.size - 1)).toNat = UInt32.size - 1 := rfl

theorem toNat_saturatingAdd (a b : UInt32) :
    (saturatingAdd a b).toNat = min (a.toNat + b.toNat) (UInt32.size - 1) := by
  unfold saturatingAdd
  split
  case isTrue h =>
    rw [UInt32.toNat_add, Nat.mod_eq_of_lt h, min_eq_left (Nat.le_sub_one_of_lt h)]
  case isFalse h =>
    rw [toNat_ofNat_size, min_eq_right ((Nat.sub_le _ 1).trans (Nat.le_of_not_lt h))]

theorem toNat_saturatingSub (a b : UInt32) :
    (saturatingSub a b).toNat = a.toNat - b.toNat := by
  unfold saturatingSub
  split
  case isTrue h => exact UInt32.toNat_sub_of_le a b h
  case isFalse h =>
    rw [UInt32.not_le, UInt32.lt_iff_toNat_lt] at h
    exact (Nat.sub_eq_zero_of_le h.le).symm

theorem toNat_saturatingMul (a b : UInt32) :
    (saturatingMul a b).toNat = min (a.toNat * b.toNat) (UInt32.size - 1) := by
  unfold saturatingMul
  split
  case isTrue h =>
    rw [UInt32.toNat_mul, Nat.mod_eq_of_lt h, min_eq_left (Nat.le_sub_one_of_lt h)]
  case isFalse h =>
    rw [toNat_ofNat_size, min_eq_right ((Nat.sub_le _ 1).trans (Nat.le_of_not_lt h))]

/-- A bound on what is taken off a word does not show if it is as large as the word. -/
theorem sub_min_of_le {a b bound : Nat} (h : a ≤ bound) : a - min b bound = a - b := by
  omega

theorem toNat_le_max (a : UInt32) : a.toNat ≤ UInt32.size - 1 :=
  Nat.le_sub_one_of_lt a.toNat_lt

theorem toNat_innerWidth (available : UInt32) (padding : Padding) :
    (innerWidth available padding).toNat =
      available.toNat - (padding.left.toNat + padding.right.toNat) := by
  rw [innerWidth, toNat_saturatingSub, Padding.horizontal, toNat_saturatingAdd,
    sub_min_of_le (toNat_le_max available)]

theorem toNat_columnWidth (inner gap count : UInt32) :
    (columnWidth inner gap count).toNat =
      (inner.toNat - gap.toNat * (count.toNat - 1)) / count.toNat := by
  unfold columnWidth
  split
  case isTrue h => rw [h, UInt32.toNat_zero, Nat.div_zero]
  case isFalse h =>
    have hone : 1 ≤ count := by
      rw [UInt32.le_iff_toNat_le, UInt32.toNat_one, Nat.one_le_iff_ne_zero]
      exact fun hzero => h (UInt32.toNat_inj.1 hzero)
    rw [UInt32.toNat_div, toNat_saturatingSub, toNat_saturatingMul,
      sub_min_of_le (toNat_le_max inner), UInt32.toNat_sub_of_le count 1 hone, UInt32.toNat_one]

/-! ## Exact formulas -/

/-- The width of the whole content. -/
def Page.exactContentWidth (page : Page) : ℤ :=
  max 320 (min 1200 page.maxWidth.toNat)

/-- The width inside some padding. -/
def Padding.exactInner (padding : Padding) (available : ℤ) : ℤ :=
  max 0 (available - padding.left.toNat - padding.right.toNat)

/-- The width of each of the columns of a row. -/
def Columns.exactColumnWidth (row : Columns) (available : ℤ) (count : ℤ) : ℤ :=
  max 0 (row.padding.exactInner available - row.gap.toNat * (count - 1)) / count

theorem Page.natCast_contentWidth (page : Page) :
    (page.contentWidth.toNat : ℤ) = page.exactContentWidth := by
  have hmin : MailTemplate.minWidth.toNat = 320 := rfl
  have hmax : MailTemplate.maxWidth.toNat = 1200 := rfl
  unfold contentWidth clampWidth exactContentWidth
  simp only [UInt32.lt_iff_toNat_lt, hmin, hmax]
  split
  · rw [hmin]
    omega
  · split
    · rw [hmax]
      omega
    · omega

theorem natCast_innerWidth (available : UInt32) (padding : Padding) :
    ((innerWidth available padding).toNat : ℤ) = padding.exactInner available.toNat := by
  rw [toNat_innerWidth, Padding.exactInner]
  omega

/-- A row has fewer columns than a word can count. -/
theorem Columns.natCast_columnWidth (row : Columns) (available : UInt32) {count : Nat}
    (hpos : 0 < count) (hcount : count < UInt32.size) :
    ((row.columnWidth available count).toNat : ℤ) =
      row.exactColumnWidth available.toNat count := by
  have hgaps : ((row.gap.toNat * (count - 1) : ℕ) : ℤ) = row.gap.toNat * ((count : ℤ) - 1) := by
    rw [Nat.cast_mul, Nat.cast_sub hpos, Nat.cast_one]
  rw [columnWidth, if_pos hcount, toNat_columnWidth, UInt32.toNat_ofNat_of_lt' hcount,
    exactColumnWidth, ← natCast_innerWidth, ← hgaps, Int.natCast_ediv]
  congr 1
  omega

/-- Columns of a width fill the inside of their row, with the gaps between them, but for less than a
pixel each. -/
def Columns.Fills (row : Columns) (count width inner : ℤ) : Prop :=
  count * width + (count - 1) * row.gap.toNat ≤ inner ∧
    inner < count * width + (count - 1) * row.gap.toNat + count

theorem Columns.fills_exactColumnWidth {row : Columns} {available count : ℤ} (hcount : 0 < count)
    (hwidth : 0 < row.exactColumnWidth available count) :
    row.Fills count (row.exactColumnWidth available count) (row.padding.exactInner available) := by
  have hgaps : (count - 1) * (row.gap.toNat : ℤ) = row.gap.toNat * (count - 1) := mul_comm _ _
  unfold Fills exactColumnWidth at *
  rw [hgaps]
  generalize row.padding.exactInner available = inner at hwidth ⊢
  generalize row.gap.toNat * (count - 1) = gaps at hwidth ⊢
  -- Nothing is left to divide if the gaps take all of the inside.
  have hleft : 0 < inner - gaps := by
    by_contra hnone
    rw [max_eq_left (not_lt.1 hnone), Int.zero_ediv] at hwidth
    exact lt_irrefl 0 hwidth
  rw [max_eq_right hleft.le]
  have hlow : count * ((inner - gaps) / count) ≤ inner - gaps := Int.mul_ediv_self_le hcount.ne'
  have hhigh : inner - gaps < count * ((inner - gaps) / count) + count :=
    Int.lt_mul_ediv_self_add hcount
  constructor
  · linarith
  · linarith

/-! ## Widths of words -/

theorem innerWidth_le (available : UInt32) (padding : Padding) :
    innerWidth available padding ≤ available := by
  rw [UInt32.le_iff_toNat_le, toNat_innerWidth]
  exact Nat.sub_le _ _

theorem Columns.columnWidth_le (row : Columns) (available : UInt32) (count : Nat) :
    row.columnWidth available count ≤ available := by
  rw [UInt32.le_iff_toNat_le, columnWidth, toNat_columnWidth, toNat_innerWidth]
  exact (Nat.div_le_self _ _).trans ((Nat.sub_le _ _).trans (Nat.sub_le _ _))

/-- An image that is to fit, or asks for no width, shows within its padding. -/
theorem Image.shownWidth_le {image : Image} (h : image.fitToContainer = true ∨ image.width = none)
    (available : UInt32) :
    image.shownWidth available ≤ innerWidth available image.padding := by
  unfold shownWidth
  cases hwidth : image.width with
  | none => exact UInt32.le_refl _
  | some width =>
    have hfit : image.fitToContainer = true := by simpa [hwidth] using h
    simp only [hfit, Bool.true_and]
    split
    · exact UInt32.le_refl _
    case isFalse hle => exact UInt32.not_lt.1 (by simpa using hle)

end MailTemplate
