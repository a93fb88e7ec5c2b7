import MailTemplate.Json.Printer
import MailTemplate.Proofs.Json.Distinct
import MailTemplate.Proofs.Json.Scalars

/-!
# Reading Written Strings and Numbers

The text of a string reads as the string, whichever of its characters are escaped, and the text of a
whole number as the number, if what follows does not go on with it.

* `EndsNumber` says that a text does not go on with a number.
* `readString_of_stringChars` and `form_of_integer` read the two texts.
-/

namespace MailTemplate.Json

variable {c d n : Cursor} {x y : Char} {rest text : List Char}

/-! ## Places -/

theorem rest_step (h : c.rest = x :: rest) : c.step.rest = rest := by
  rw [Cursor.step]
  split
  case h_1 hnil => simp [hnil] at h
  case h_2 hcons =>
    rw [hcons] at h
    cases h
    rfl

theorem rest_passWhile {blanks : List Char} (hblanks : ∀ y ∈ blanks, Cursor.isBlank y = true)
    (hx : Cursor.isBlank x = false) (position : Position) :
    (Cursor.passWhile Cursor.isBlank position (blanks ++ x :: rest)).rest = x :: rest := by
  induction blanks generalizing position with
  | nil =>
    rw [List.nil_append, Cursor.passWhile, hx]
    rfl
  | cons y blanks ih =>
    rw [List.forall_mem_cons] at hblanks
    rw [List.cons_append, Cursor.passWhile, if_pos hblanks.1]
    exact ih hblanks.2 _

/-- Blanks are passed over up to the first character that is none. -/
theorem rest_skipBlanks {blanks : List Char} (h : c.rest = blanks ++ x :: rest)
    (hblanks : ∀ y ∈ blanks, Cursor.isBlank y = true) (hx : Cursor.isBlank x = false) :
    c.skipBlanks.rest = x :: rest := by
  rw [Cursor.skipBlanks, h, rest_passWhile hblanks hx]

theorem skipBlanks_of_rest (h : c.rest = x :: rest) (hx : Cursor.isBlank x = false) :
    c.skipBlanks = c := by
  obtain ⟨position, _⟩ := c
  cases h
  rw [Cursor.skipBlanks, Cursor.passWhile, hx]
  rfl

/-! ## Strings -/

theorem run_hexEscape {w z : Char} {u : Nat} (h : c.rest = w :: x :: y :: z :: rest)
    (hu : hexNumber? w x y z = some u) : ∃ n, hexEscape.run c = some (u, n) ∧ n.rest = rest := by
  rw [Reader.run, hexEscape]
  split
  case h_1 hcons =>
    rw [hcons] at h
    cases h
    simp only [hu]
    exact ⟨_, rfl, rfl⟩
  case h_2 hfew => exact absurd h (hfew _ _ _ _ _)

theorem hexNumber?_hexDigit :
    ∀ u < 32, hexNumber? '0' '0' (hexDigit (u / 16)) (hexDigit u) = some u := by
  decide

/-- A control character is read from its code unit. -/
theorem escapeAt_control (hx : x.toNat < 32)
    (h : c.rest = 'u' :: '0' :: '0' :: hexDigit (x.toNat / 16) :: hexDigit x.toNat :: rest) :
    ∃ n, EscapeAt unicodeEscape c x n ∧ n.rest = rest := by
  obtain ⟨n, hex, hn⟩ := run_hexEscape (rest_step h) (hexNumber?_hexDigit _ hx)
  refine ⟨n, .unicode h ?_, hn⟩
  obtain ⟨s, hs, hvalue, rfl⟩ := run_eq_some_iff.1 hex
  -- A code unit below 32 is no half of a pair and stands for its character.
  have htrailing : isTrailing s.value = false := by simp [isTrailing, hvalue]; omega
  have hleading : isLeading s.value = false := by simp [isLeading, hvalue]; omega
  have hchar : Char.ofNat s.value = x := by rw [hvalue, Char.ofNat_toNat]
  rw [Reader.run, unicodeEscape, hs, ok_bind]
  simp only [htrailing, hleading, Bool.false_eq_true, if_false]
  exact congrArg (fun y => some (y, s.next)) hchar

/-- A character that is escaped by a letter is read from it. -/
theorem escapeAt_letter (h : c.rest = y :: rest) (hy : simpleEscape? y = some x) :
    ∃ n, EscapeAt unicodeEscape c x n ∧ n.rest = rest :=
  ⟨c.step, .simple h hy, rest_step h⟩

/-- The escape of a character in a string is read as the character. -/
theorem chars_of_escapeChar {s : List Char} (x : Char) (h : c.rest = escapeChar x ++ rest)
    (hmore : ∀ d : Cursor, d.rest = rest → ∃ n, Chars d s n ∧ n.rest = text) :
    ∃ n, Chars c (x :: s) n ∧ n.rest = text := by
  -- All escapes begin with a backslash and differ in what follows it.
  have hescape : ∀ {escape : List Char}, c.rest = '\\' :: escape →
      (∃ d, EscapeAt unicodeEscape c.step x d ∧ d.rest = rest) →
        ∃ n, Chars c (x :: s) n ∧ n.rest = text := by
    rintro escape hslash ⟨d, hd, hrest⟩
    obtain ⟨n, hchars, hn⟩ := hmore d hrest
    exact ⟨n, .escape hslash hd hchars, hn⟩
  unfold escapeChar at h
  split at h
  case isTrue heq => exact hescape h (escapeAt_letter (rest_step h) (by rw [heq]; rfl))
  case isFalse hquote =>
  split at h
  case isTrue heq => exact hescape h (escapeAt_letter (rest_step h) (by rw [heq]; rfl))
  case isFalse hslash =>
  split at h
  case isTrue heq => exact hescape h (escapeAt_letter (rest_step h) (by rw [heq]; rfl))
  case isFalse =>
  split at h
  case isTrue heq => exact hescape h (escapeAt_letter (rest_step h) (by rw [heq]; rfl))
  case isFalse =>
  split at h
  case isTrue heq => exact hescape h (escapeAt_letter (rest_step h) (by rw [heq]; rfl))
  case isFalse =>
  split at h
  case isTrue heq => exact hescape h (escapeAt_letter (rest_step h) (by rw [heq]; rfl))
  case isFalse =>
  split at h
  case isTrue heq => exact hescape h (escapeAt_letter (rest_step h) (by rw [heq]; rfl))
  case isFalse =>
  split at h
  case isTrue hcontrol => exact hescape h (escapeAt_control hcontrol (rest_step h))
  case isFalse hcontrol =>
    obtain ⟨n, hchars, hn⟩ := hmore c.step (rest_step h)
    exact ⟨n, .plain h hquote hslash hcontrol hchars, hn⟩

/-- The text of a string is read as the string. -/
theorem chars_of_string (s : List Char) (h : c.rest = s.flatMap escapeChar ++ '"' :: rest) :
    ∃ n, Chars c s n ∧ n.rest = rest := by
  induction s generalizing c with
  | nil => exact ⟨c.step, .close h, rest_step h⟩
  | cons x s ih =>
    rw [List.flatMap_cons, List.append_assoc] at h
    exact chars_of_escapeChar x h fun d hd => ih hd

theorem readString_of_stringChars (s : String) (h : c.rest = stringChars s ++ rest) :
    ∃ rest' n, c.rest = '"' :: rest' ∧ readString.run c.step = some (s, n) ∧ n.rest = rest := by
  simp only [stringChars, List.cons_append, List.append_assoc, List.nil_append] at h
  obtain ⟨n, hchars, hn⟩ := chars_of_string s.toList (rest_step h)
  exact ⟨_, n, h, run_readString_iff.2 ⟨_, hchars, String.ofList_toList.symm⟩, hn⟩

/-! ## Numbers -/

/-- A text does not go on with a number. -/
def EndsNumber (rest : List Char) : Prop :=
  ∀ x ∈ rest.head?, x.isDigit = false ∧ x ≠ '.' ∧ x ≠ 'e' ∧ x ≠ 'E'

variable {digits : List Char} {negative : Bool} {m : Number} {v : Nat}

theorem EndsNumber.takeWhile_eq_nil (h : EndsNumber rest) : rest.takeWhile Char.isDigit = [] := by
  cases rest with
  | nil => rfl
  | cons x rest => rw [List.takeWhile_cons, (h x rfl).1]; rfl

theorem digits_of_rest (h : c.rest = digits ++ rest) (hdigits : ∀ x ∈ digits, x.isDigit = true)
    (hend : EndsNumber rest) : c.digits = digits := by
  rw [Cursor.digits, h, List.takeWhile_append_of_pos hdigits, hend.takeWhile_eq_nil,
    List.append_nil]

theorem rest_skipDigits (h : c.rest = digits ++ rest) (hdigits : ∀ x ∈ digits, x.isDigit = true)
    (hend : EndsNumber rest) : c.skipDigits.val.rest = rest := by
  have hpass : ∀ position,
      (Cursor.passWhile Char.isDigit position (digits ++ rest)).rest = rest := by
    clear h
    induction digits with
    | nil =>
      intro position
      cases rest with
      | nil => rfl
      | cons x rest =>
        rw [List.nil_append, Cursor.passWhile, (hend x rfl).1]
        rfl
    | cons x digits ih =>
      intro position
      rw [List.forall_mem_cons] at hdigits
      rw [List.cons_append, Cursor.passWhile, if_pos hdigits.1]
      exact ih hdigits.2 _
  change (Cursor.passWhile Char.isDigit c.position c.rest).rest = rest
  rw [h, hpass]

theorem le_foldl_digits (v : Nat) (digits : List Char) :
    v ≤ digits.foldl (fun n x => n * 10 + (x.toNat - '0'.toNat)) v := by
  induction digits generalizing v with
  | nil => exact Nat.le_refl v
  | cons x digits ih =>
    have hstep : v ≤ v * 10 + (x.toNat - '0'.toNat) := by omega
    exact Nat.le_trans hstep (ih _)

/-- Digits that fit 64 bits are all kept. -/
theorem extend_of_lt (kept : Nat)
    (h : digits.foldl (fun n x => n * 10 + (x.toNat - '0'.toNat)) v < UInt64.size) :
    Number.Digits.extend ⟨v, kept, 0⟩ digits =
      ⟨digits.foldl (fun n x => n * 10 + (x.toNat - '0'.toNat)) v, kept + digits.length, 0⟩ := by
  induction digits generalizing v kept with
  | nil => rfl
  | cons x digits ih =>
    rw [List.foldl_cons] at h ⊢
    have hfits : v * 10 + (x.toNat - '0'.toNat) < UInt64.size :=
      Nat.lt_of_le_of_lt (le_foldl_digits _ _) h
    have hpush : Number.Digits.push ⟨v, kept, 0⟩ (x.toNat - '0'.toNat) =
        ⟨v * 10 + (x.toNat - '0'.toNat), kept + 1, 0⟩ := by
      rw [Number.Digits.push, if_pos ⟨rfl, hfits⟩]
    have hextend : Number.Digits.extend ⟨v, kept, 0⟩ (x :: digits) =
        Number.Digits.extend (Number.Digits.push ⟨v, kept, 0⟩ (x.toNat - '0'.toNat)) digits := rfl
    rw [hextend, hpush, ih _ h, List.length_cons, Nat.add_assoc, Nat.add_comm 1]

theorem isDigit_of_mem_digitChars : ∀ x ∈ Binary.digitChars v, x.isDigit = true :=
  fun _ => Nat.isDigit_of_mem_toDigits (by decide) (by decide)

theorem foldl_digitChars (v : Nat) :
    (Binary.digitChars v).foldl (fun n x => n * 10 + (x.toNat - '0'.toNat)) 0 = v := by
  refine Eq.trans ?_ (Nat.ofDigitChars_ten_toDigits (n := v))
  simp only [Nat.ofDigitChars, Nat.mul_comm, Binary.digitChars]

theorem digitChar_eq_zero : ∀ v < 10, Nat.digitChar v = '0' → v = 0 := by
  decide

/-- Only zero begins with the digit zero. -/
theorem digitChars_eq_cons (v : Nat) :
    ∃ x more, Binary.digitChars v = x :: more ∧ (x = '0' → v = 0) := by
  induction v using Nat.strongRecOn with
  | ind v ih =>
    by_cases hv : v < 10
    · exact ⟨Nat.digitChar v, [], Nat.toDigits_of_lt_base hv, digitChar_eq_zero v hv⟩
    -- The first digit is that of the number without its last digit.
    · obtain ⟨x, more, hchars, hzero⟩ := ih (v / 10) (by omega)
      refine ⟨x, more ++ [Nat.digitChar (v % 10)], ?_, fun hx => ?_⟩
      · rw [Binary.digitChars] at hchars
        rw [Binary.digitChars, Nat.toDigits_of_base_le (by decide) (by omega), hchars,
          List.cons_append]
      · have hsmall := hzero hx
        omega

theorem ran_afterWhole {whole : Number.Digits} (hend : EndsNumber c.rest)
    (hwhole : whole.dropped = 0) (hm : Number.ofSigned? negative whole.significand = some m) :
    ran (afterWhole negative whole c) = some (m, c) := by
  have hexponent : c.atExponent = false := by
    rw [Cursor.atExponent]
    split
    case h_1 x rest hrest =>
      obtain ⟨-, -, hlower, hupper⟩ := hend x (by rw [hrest]; rfl)
      simp [hlower, hupper]
    case h_2 => rfl
  rw [ran, afterWhole]
  split
  case h_1 hpoint =>
    obtain ⟨-, hne, -⟩ := hend '.' (by rw [hpoint]; rfl)
    exact absurd rfl hne
  case h_2 =>
    have hnot : ¬ (c.atExponent = true ∨ whole.dropped ≠ 0) := by simp [hexponent, hwhole]
    rw [if_neg hnot, hm]
    rfl

theorem run_readNumber_zero (h : c.rest = '0' :: rest) (hend : EndsNumber rest)
    (hm : Number.ofSigned? negative 0 = some m) :
    (readNumber negative).run c = some (m, c.step) := by
  obtain ⟨first, hread, hvalue, hnext⟩ := exists_readChar h
  have hempty : first.next.digits.isEmpty = true := by
    rw [hnext, Cursor.digits, rest_step h, hend.takeWhile_eq_nil]
    rfl
  rw [← rest_step h, ← hnext] at hend
  have hzero : (Number.Digits.extend {} ['0']).dropped = 0 := rfl
  obtain ⟨e, hwhole, heq⟩ := ran_eq_some_iff.1 (ran_afterWhole hend hzero hm)
  rw [Reader.run, readNumber, hread, ok_bind]
  simp only [hvalue, if_true, hempty, hwhole, ok_bind]
  exact congrArg (fun d => some (_, d)) (heq.trans hnext)

theorem run_readNumber_digits (h : c.rest = x :: rest) (hx : x.isDigit = true) (hzero : x ≠ '0')
    (hend : EndsNumber c.step.skipDigits.val.rest)
    (hwhole : (Number.Digits.extend {} c.digits).dropped = 0)
    (hm : Number.ofSigned? negative (Number.Digits.extend {} c.digits).significand = some m) :
    (readNumber negative).run c = some (m, c.step.skipDigits.val) := by
  obtain ⟨first, hread, hvalue, hnext⟩ := exists_readChar h
  rw [← hnext] at hend ⊢
  obtain ⟨e, hafter, heq⟩ := ran_eq_some_iff.1 (ran_afterWhole hend hwhole hm)
  rw [Reader.run, readNumber, hread, ok_bind]
  simp only [hvalue, if_neg hzero, if_pos hx, hafter, ok_bind]
  exact congrArg (fun d => some (_, d)) heq

/-- The digits of a number that fits 64 bits are read as the number. -/
theorem run_readNumber_digitChars (hv : v < UInt64.size) (h : c.rest = Binary.digitChars v ++ rest)
    (hend : EndsNumber rest) (hm : Number.ofSigned? negative v = some m) :
    ∃ n, (readNumber negative).run c = some (m, n) ∧ n.rest = rest := by
  obtain ⟨x, more, hchars, hzero⟩ := digitChars_eq_cons v
  have hall : ∀ y ∈ Binary.digitChars v, y.isDigit = true := isDigit_of_mem_digitChars
  have hdigits := digits_of_rest h hall hend
  rw [hchars, List.forall_mem_cons] at hall
  by_cases hx : x = '0'
  · -- A zero stands by itself.
    obtain rfl := hzero hx
    exact ⟨c.step, run_readNumber_zero h hend hm, rest_step h⟩
  · have hextend : Number.Digits.extend {} c.digits = ⟨v, (Binary.digitChars v).length, 0⟩ := by
      rw [hdigits]
      rw [← foldl_digitChars v] at hv
      rw [extend_of_lt 0 hv, foldl_digitChars, Nat.zero_add]
    rw [hchars, List.cons_append] at h
    have hafter := rest_skipDigits (rest_step h) hall.2 hend
    refine ⟨_, run_readNumber_digits h hall.1 hx (by rwa [hafter]) ?_ ?_, hafter⟩
    · rw [hextend]
    · rwa [hextend]

theorem ofInt?_value (i : Integer) : Integer.ofInt? i.value = some i := by
  rw [Integer.ofInt?, dif_pos i.inRange]

/-- The text of a whole number is read as the number. -/
theorem form_of_integer (i : Integer) (h : c.rest = i.chars ++ rest) (hend : EndsNumber rest)
    (depth : Nat) : ∃ n, Form depth c (.number (.integer i)) n ∧ n.rest = rest := by
  have hrange := i.inRange
  have hfits : i.value.natAbs < UInt64.size := by
    rw [UInt64.size]
    omega
  rw [Integer.chars] at h
  -- The sign is written and read apart from the digits, which are those of the absolute value.
  by_cases hsign : i.value < 0
  · simp only [if_pos hsign, List.cons_append] at h
    have hm : Number.ofSigned? true i.value.natAbs = some (.integer i) := by
      have hne : ¬ (true = true ∧ i.value.natAbs = 0) := by omega
      have hvalue : -(i.value.natAbs : Int) = i.value := by omega
      rw [Number.ofSigned?, if_neg hne]
      simp only [if_true, hvalue, ofInt?_value]
    obtain ⟨n, hread, hn⟩ := run_readNumber_digitChars hfits (rest_step h) hend hm
    exact ⟨n, .negative h hread, hn⟩
  · simp only [if_neg hsign] at h
    have hm : Number.ofSigned? false i.value.natAbs = some (.integer i) := by
      have hvalue : (i.value.natAbs : Int) = i.value := by omega
      rw [Number.ofSigned?, if_neg (by simp)]
      simp only [Bool.false_eq_true, if_false, hvalue, ofInt?_value]
    obtain ⟨n, hread, hn⟩ := run_readNumber_digitChars hfits h hend hm
    obtain ⟨x, more, hchars, -⟩ := digitChars_eq_cons i.value.natAbs
    have hx : x.isDigit = true := isDigit_of_mem_digitChars x (hchars ▸ List.mem_cons_self)
    rw [hchars, List.cons_append] at h
    exact ⟨n, .number h hx hread, hn⟩

end MailTemplate.Json
