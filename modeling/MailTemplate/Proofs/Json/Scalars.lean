import MailTemplate.Json.Skip
import MailTemplate.Proofs.Json.Reading

/-!
# Strings and Numbers in a Text

What stands in a text where a string or a number is read. Passing over it, which checks less, stops
at the same place.

* `Chars` describes the characters of a string up to its closing quote.
* `Chars.run_skipString` and `run_skipNumber` say that passing over stops where reading does.
-/

namespace MailTemplate.Json

variable {c d n : Cursor} {x y : Char} {rest : List Char} {s : List Char}

/-! ## Strings -/

/-- What follows the backslash of an escape. -/
inductive EscapeAt (unicode : Reader Char) : Cursor → Char → Cursor → Prop
  | simple {c : Cursor} {x y : Char} {rest : List Char} (h : c.rest = x :: rest)
    (hy : simpleEscape? x = some y) : EscapeAt unicode c y c.step
  | unicode {c n : Cursor} {y : Char} {rest : List Char} (h : c.rest = 'u' :: rest)
    (hy : unicode.run c.step = some (y, n)) : EscapeAt unicode c y n

theorem run_escapeWith_cons (unicode : Reader Char) (h : c.rest = x :: rest) :
    (escapeWith unicode).run c =
      (simpleEscape? x).elim (if x = 'u' then unicode.run c.step else none) fun y =>
        some (y, c.step) := by
  rw [Reader.run, escapeWith]
  split
  case h_1 hnil => simp [hnil] at h
  case h_2 hcons =>
    rw [hcons] at h
    cases h
    cases hy : simpleEscape? x with
    | some y => rfl
    | none =>
      by_cases hx : x = 'u'
      · simp only [if_pos hx, Option.elim_none, Reader.run]
        cases unicode c.step <;> rfl
      · simp only [if_neg hx, Option.elim_none]
        rfl

theorem run_escapeWith_nil (unicode : Reader Char) (h : c.rest = []) :
    (escapeWith unicode).run c = none := by
  rw [Reader.run, escapeWith]
  split
  case h_1 => rfl
  case h_2 hcons => simp [h] at hcons

theorem run_escapeWith_simple (unicode : Reader Char) (h : c.rest = x :: rest)
    (hy : simpleEscape? x = some y) : (escapeWith unicode).run c = some (y, c.step) := by
  rw [run_escapeWith_cons unicode h, hy, Option.elim_some]

theorem run_escapeWith_unicode (unicode : Reader Char) (h : c.rest = 'u' :: rest) :
    (escapeWith unicode).run c = unicode.run c.step := by
  have hletter : simpleEscape? 'u' = none := rfl
  rw [run_escapeWith_cons unicode h, hletter, Option.elim_none, if_pos rfl]

/-- An escape is read just as it stands. -/
theorem run_escapeWith_iff {unicode : Reader Char} :
    (escapeWith unicode).run c = some (y, n) ↔ EscapeAt unicode c y n := by
  constructor
  · intro h
    cases hrest : c.rest with
    | nil =>
      rw [run_escapeWith_nil unicode hrest] at h
      cases h
    | cons x rest =>
      rw [run_escapeWith_cons unicode hrest] at h
      -- The character stands for another one, or it is the letter of code units.
      cases hy : simpleEscape? x with
      | some z =>
        rw [hy, Option.elim_some] at h
        cases h
        exact .simple hrest hy
      | none =>
        rw [hy, Option.elim_none] at h
        split at h
        case isTrue hx => exact .unicode (hx ▸ hrest) h
        case isFalse => cases h
  · intro h
    cases h with
    | simple h hy => exact run_escapeWith_simple unicode h hy
    | unicode h hy => rw [run_escapeWith_unicode unicode h, hy]

/-- The characters of a string up to its closing quote, and past it. -/
inductive Chars : Cursor → List Char → Cursor → Prop
  | close {c : Cursor} {rest : List Char} (h : c.rest = '"' :: rest) : Chars c [] c.step
  | escape {c d n : Cursor} {y : Char} {rest s : List Char} (h : c.rest = '\\' :: rest)
    (hy : EscapeAt unicodeEscape c.step y d) (hs : Chars d s n) : Chars c (y :: s) n
  | plain {c n : Cursor} {x : Char} {rest s : List Char} (h : c.rest = x :: rest) (hquote : x ≠ '"')
    (hslash : x ≠ '\\') (hx : ¬ x.toNat < 32) (hs : Chars c.step s n) : Chars c (x :: s) n

theorem run_stringRest_nil (h : c.rest = []) : stringRest.run c = none := by
  rw [Reader.run, stringRest]
  split
  case h_1 => rfl
  case h_2 hcons => simp [h] at hcons

/-- What becomes of the rest of a string at its first character. -/
theorem run_stringRest_cons (h : c.rest = x :: rest) :
    stringRest.run c =
      if x = '"' then some ([], c.step)
      else if x = '\\' then ((escapeWith unicodeEscape).run c.step).bind fun r =>
        (stringRest.run r.2).map fun t => (r.1 :: t.1, t.2)
      else if x.toNat < 32 then none
      else (stringRest.run c.step).map fun t => (x :: t.1, t.2) := by
  rw [Reader.run, stringRest]
  split
  case h_1 hnil => simp [hnil] at h
  case h_2 hcons =>
    rw [hcons] at h
    cases h
    by_cases hquote : x = '"'
    · simp only [if_pos hquote]
      rfl
    by_cases hslash : x = '\\'
    · simp only [if_neg hquote, if_pos hslash]
      exact outcome_bind Step.reading fun _ => outcome_bind_pure fun _ => rfl
    by_cases hx : x.toNat < 32
    · simp only [if_neg hquote, if_neg hslash, if_pos hx]
      rfl
    · simp only [if_neg hquote, if_neg hslash, if_neg hx]
      exact outcome_bind_pure fun _ => rfl

theorem Chars.run (h : Chars c s n) : stringRest.run c = some (s, n) := by
  induction h with
  | close h => rw [run_stringRest_cons h, if_pos rfl]
  | escape h hy _ ih =>
    rw [run_stringRest_cons h, if_neg (by decide), if_pos rfl, run_escapeWith_iff.2 hy,
      Option.bind_some, ih, Option.map_some]
  | plain h hquote hslash hx _ ih =>
    rw [run_stringRest_cons h, if_neg hquote, if_neg hslash, if_neg hx, ih, Option.map_some]

theorem chars_of_run (h : stringRest.run c = some (s, n)) : Chars c s n := by
  -- The cases are the end of the text, the closing quote, an escape, a control character and any
  -- other character.
  fun_induction stringRest c generalizing s with
  | case1 c hrest =>
    rw [run_stringRest_nil hrest] at h
    cases h
  | case2 c rest hrest =>
    rw [run_stringRest_cons hrest, if_pos rfl] at h
    cases h
    exact .close hrest
  | case3 c rest hrest hlt hne ih =>
    rw [run_stringRest_cons hrest, if_neg hne, if_pos rfl, Option.bind_eq_some_iff] at h
    obtain ⟨_, hescape, hmore⟩ := h
    obtain ⟨step, -, rfl⟩ := outcome_eq_some_iff.1 hescape
    obtain ⟨_, hread, heq⟩ := Option.map_eq_some_iff.1 hmore
    cases heq
    exact .escape hrest (run_escapeWith_iff.1 hescape) (ih step hread)
  | case4 c x rest hrest hlt hquote hslash hx =>
    rw [run_stringRest_cons hrest, if_neg hquote, if_neg hslash, if_pos hx] at h
    cases h
  | case5 c x rest hrest hlt hquote hslash hx ih =>
    rw [run_stringRest_cons hrest, if_neg hquote, if_neg hslash, if_neg hx] at h
    obtain ⟨_, hread, heq⟩ := Option.map_eq_some_iff.1 h
    cases heq
    exact .plain hrest hquote hslash hx (ih hread)

/-- A string is read just as its characters stand. -/
theorem run_readString_iff {t : String} :
    readString.run c = some (t, n) ↔ ∃ s, Chars c s n ∧ t = String.ofList s := by
  have hread : readString.run c = (stringRest.run c).map fun r => (String.ofList r.1, r.2) :=
    run_map rfl
  rw [hread, Option.map_eq_some_iff]
  constructor
  · rintro ⟨⟨s, _⟩, hchars, heq⟩
    cases heq
    exact ⟨s, chars_of_run hchars, rfl⟩
  · rintro ⟨s, hchars, rfl⟩
    exact ⟨(s, n), hchars.run, rfl⟩

/-! ## Passing over a string -/

/-- What follows the letter of an escape by code units is passed over by halves. -/
def skipHex : Reader Char := fun c => do
  return (← hexEscape c).map fun _ => ' '

theorem run_skipString_cons (h : c.rest = x :: rest) :
    Reader.run skipString c =
      if x = '"' then some ((), c.step)
      else if x = '\\' then
        ((escapeWith skipHex).run c.step).bind fun r => Reader.run skipString r.2
      else if x.toNat < 32 then none
      else Reader.run skipString c.step := by
  rw [Reader.run, skipString]
  split
  case h_1 hnil => simp [hnil] at h
  case h_2 hcons =>
    rw [hcons] at h
    cases h
    by_cases hquote : x = '"'
    · simp only [if_pos hquote]
      rfl
    by_cases hslash : x = '\\'
    · simp only [if_neg hquote, if_pos hslash]
      refine outcome_bind Step.reading fun step => ?_
      rw [Reader.run, Step.reading]
      cases skipString step.next <;> rfl
    by_cases hx : x.toNat < 32
    · simp only [if_neg hquote, if_neg hslash, if_pos hx]
      rfl
    · simp only [if_neg hquote, if_neg hslash, if_neg hx, Reader.run]
      cases skipString c.step <;> rfl

theorem run_skipString_escape (h : c.rest = '\\' :: rest) :
    Reader.run skipString c =
      ((escapeWith skipHex).run c.step).bind fun r => Reader.run skipString r.2 := by
  rw [run_skipString_cons h, if_neg (by decide), if_pos rfl]

theorem run_pairPart_eq_some {u : Unit} (h : (pairPart x).run c = some (u, d)) :
    (∃ rest, c.rest = x :: rest) ∧ d = c.step := by
  obtain ⟨step, hread, heq⟩ := outcome_eq_some_iff.1 h
  rw [pairPart] at hread
  split at hread
  case h_1 => cases hread
  case h_2 y rest hcons =>
    split at hread
    case isTrue heq' =>
      cases hread
      cases heq
      exact ⟨⟨rest, heq' ▸ hcons⟩, rfl⟩
    case isFalse => cases hread

/-- After the letter of an escape by code units stands one unit, or one and another escape. -/
theorem run_unicodeEscape_eq_some (h : unicodeEscape.run c = some (y, n)) :
    ∃ u d, hexEscape.run c = some (u, d) ∧
      (n = d ∨ (∃ rest, d.rest = '\\' :: rest) ∧ (∃ rest, d.step.rest = 'u' :: rest) ∧
        ∃ v, hexEscape.run d.step.step = some (v, n)) := by
  obtain ⟨step, hread, -, rfl⟩ := run_eq_some_iff.1 h
  rw [unicodeEscape] at hread
  obtain ⟨first, hfirst, hread⟩ := bind_eq_ok_iff.1 hread
  refine ⟨first.value, first.next, run_of_ok hfirst, ?_⟩
  obtain ⟨-, hread⟩ := guard_eq_ok_iff.1 hread
  -- The first half of a pair needs the escape of the second one right after it.
  split at hread
  case isTrue =>
    obtain ⟨slash, hslash, hread⟩ := bind_eq_ok_iff.1 hread
    obtain ⟨letter, hletter, hread⟩ := bind_eq_ok_iff.1 hread
    obtain ⟨second, hsecond, hread⟩ := bind_eq_ok_iff.1 hread
    obtain ⟨hslashAt, hslashNext⟩ := run_pairPart_eq_some (run_of_ok hslash)
    obtain ⟨hletterAt, hletterNext⟩ := run_pairPart_eq_some (run_of_ok hletter)
    rw [hslashNext] at hletterAt
    have hunits : letter.next = first.next.step.step :=
      hletterNext.trans (congrArg Cursor.step hslashNext)
    split at hread
    case isTrue =>
      rw [← pure_eq_ok_iff.1 hread]
      refine .inr ⟨hslashAt, hletterAt, second.value, ?_⟩
      rw [← hunits]
      exact run_of_ok hsecond
    case isFalse => cases hread
  case isFalse =>
    cases hread
    exact .inl rfl

theorem run_skipHex {u : Nat} (h : hexEscape.run c = some (u, d)) :
    skipHex.run c = some (' ', d) := by
  have hskip : skipHex.run c = (hexEscape.run c).map fun r => (' ', r.2) :=
    run_map (f := fun _ => ' ') rfl
  rw [hskip, h, Option.map_some]

/-- Passing over an escape by code units takes its halves one after the other. -/
theorem run_skipString_unicode (h : c.rest = '\\' :: rest) {rest' : List Char}
    (hu : c.step.rest = 'u' :: rest') {u : Nat} (hex : hexEscape.run c.step.step = some (u, d)) :
    Reader.run skipString c = Reader.run skipString d := by
  rw [run_skipString_escape h, run_escapeWith_unicode skipHex hu, run_skipHex hex,
    Option.bind_some]

/-- Passing over a string stops where reading it stops. -/
theorem Chars.run_skipString (h : Chars c s n) : Reader.run skipString c = some ((), n) := by
  induction h with
  | close h => rw [run_skipString_cons h, if_pos rfl]
  | plain h hquote hslash hx _ ih =>
    rw [run_skipString_cons h, if_neg hquote, if_neg hslash, if_neg hx, ih]
  | escape h hy _ ih =>
    cases hy with
    | simple hx hy =>
      rw [run_skipString_escape h, run_escapeWith_simple skipHex hx hy, Option.bind_some, ih]
    | unicode hu hy =>
      obtain ⟨u, d, hex, rfl | ⟨⟨_, hslash⟩, ⟨_, hu'⟩, v, hex'⟩⟩ := run_unicodeEscape_eq_some hy
      · rw [run_skipString_unicode h hu hex, ih]
      -- The second half is passed over as an escape of its own.
      · rw [run_skipString_unicode h hu hex, run_skipString_unicode hslash hu' hex', ih]

/-! ## Passing over a number -/

variable {negative : Bool} {significand : Nat} {exponent : Int} {whole : Number.Digits} {m : Number}

theorem isDigit_ne (hx : x.isDigit = true) (hy : y.isDigit = false) : x ≠ y := by
  rintro rfl
  rw [hx] at hy
  cases hy

theorem skipDigits_of_isEmpty (h : c.digits.isEmpty = true) : c.skipDigits.val = c := by
  obtain ⟨position, rest⟩ := c
  cases rest with
  | nil => rfl
  | cons x rest =>
    cases hx : x.isDigit with
    | true => simp [Cursor.digits, hx] at h
    | false => simp [Cursor.skipDigits, Cursor.passWhile, hx]

/-- An exponent ends after its digits. -/
theorem exponent_of_ran (h : ran (exponentPart negative significand exponent c) = some (m, n)) :
    (exponentSign c).2.val.digits.isEmpty = false ∧
      n = (exponentSign c).2.val.skipDigits.val := by
  obtain ⟨d, hread, rfl⟩ := ran_eq_some_iff.1 h
  rw [exponentPart] at hread
  split at hread
  case isTrue => cases hread
  case isFalse hdigits =>
    -- Whether the exponent is kept or too large, its digits are read to the end.
    refine ⟨Bool.eq_false_iff.2 hdigits, ?_⟩
    split at hread
    case h_1 =>
      split at hread
      case isTrue => cases hread
      case isFalse =>
        cases hread
        rfl
    case h_2 =>
      obtain ⟨_, -, heq⟩ := bind_eq_ok_iff.1 hread
      cases heq
      rfl

theorem reached_skipExponent
    (h : ran (afterDigits negative significand exponent c) = some (m, n)) :
    reached (skipExponent c) = some n := by
  obtain ⟨d, hread, rfl⟩ := ran_eq_some_iff.1 h
  rw [afterDigits] at hread
  rw [skipExponent]
  split at hread
  case isTrue hexponent =>
    obtain ⟨⟨x, e⟩, hexp, heq⟩ := bind_eq_ok_iff.1 hread
    cases heq
    obtain ⟨hdigits, hnext⟩ := exponent_of_ran (ran_of_ok hexp)
    simp only [hexponent, if_true, hdigits, Bool.false_eq_true, if_false]
    exact congrArg some hnext.symm
  case isFalse hexponent =>
    obtain ⟨_, -, heq⟩ := bind_eq_ok_iff.1 hread
    cases heq
    rw [if_neg hexponent]
    rfl

/-- A fraction has digits, and an exponent may follow them. -/
theorem fraction_of_ran (h : ran (fractionPart negative whole c) = some (m, n)) :
    c.digits.isEmpty = false ∧ reached (skipExponent c.skipDigits.val) = some n := by
  obtain ⟨d, hread, rfl⟩ := ran_eq_some_iff.1 h
  rw [fractionPart] at hread
  split at hread
  case isTrue => cases hread
  case isFalse hdigits =>
    obtain ⟨⟨x, e⟩, hend, heq⟩ := bind_eq_ok_iff.1 hread
    cases heq
    exact ⟨Bool.eq_false_iff.2 hdigits,
      reached_skipExponent (ran_of_ok hend)⟩

theorem reached_skipFraction_point (h : c.rest = '.' :: rest)
    (hdigits : c.step.digits.isEmpty = false) :
    reached (skipFraction c) = reached (skipExponent c.step.skipDigits.val) := by
  simp only [reached, skipFraction, h, hdigits, Bool.false_eq_true, if_false]
  cases skipExponent c.step.skipDigits.val <;> rfl

theorem skipFraction_of_ne (h : ∀ rest, c.rest ≠ '.' :: rest) :
    skipFraction c = skipExponent c := by
  rw [skipFraction]
  split
  case h_1 hpoint => exact absurd hpoint (h _)
  case h_2 => rfl

theorem reached_skipFraction (h : ran (afterWhole negative whole c) = some (m, n)) :
    reached (skipFraction c) = some n := by
  obtain ⟨d, hread, rfl⟩ := ran_eq_some_iff.1 h
  rw [afterWhole] at hread
  split at hread
  case h_1 rest hpoint =>
    obtain ⟨⟨x, e⟩, hfraction, heq⟩ := bind_eq_ok_iff.1 hread
    cases heq
    obtain ⟨hdigits, hend⟩ := fraction_of_ran (ran_of_ok hfraction)
    rw [reached_skipFraction_point hpoint hdigits, hend]
    rfl
  case h_2 hpoint =>
    rw [skipFraction_of_ne hpoint]
    -- Digits that were dropped count as an exponent, even if none is written.
    split at hread
    case isTrue => exact reached_skipExponent (ran_of_ok hread)
    case isFalse hexponent =>
      rw [skipExponent, if_neg (fun h => hexponent (.inl h))]
      split at hread
      case h_1 =>
        cases hread
        rfl
      case h_2 => cases hread

theorem run_skipNumber_of_digit (h : c.rest = x :: rest) (hx : x.isDigit = true)
    (hzero : x = '0' → c.step.digits.isEmpty = true) :
    skipNumber.run c = (reached (skipFraction c.step.skipDigits.val)).map ((), ·) := by
  obtain ⟨first, hfirst, rfl, hnext⟩ := exists_readChar h
  have hguard : ¬ (first.value = '0' ∧ (!first.next.digits.isEmpty) = true) := by
    rintro ⟨heq, hmore⟩
    rw [hnext, hzero heq] at hmore
    cases hmore
  rw [Reader.run, skipNumber, h, hfirst, ← hnext]
  simp only [List.isEmpty_cons, Bool.false_eq_true, if_false, ok_bind, if_neg hguard, if_pos hx]
  exact outcome_bind_pure fun _ => rfl

/-- Passing over a number stops where reading it stops. -/
theorem run_skipNumber (h : (readNumber negative).run c = some (m, n)) :
    skipNumber.run c = some ((), n) := by
  obtain ⟨s, hread, -, rfl⟩ := run_eq_some_iff.1 h
  obtain ⟨first, hfirst, hnumber⟩ := bind_eq_ok_iff.1 hread
  obtain ⟨rest, hrest, hnext⟩ := exists_of_readChar hfirst
  dsimp only at hnumber
  split at hnumber
  case isTrue hvalue =>
    -- No digit may follow a leading zero.
    split at hnumber
    case isTrue hdigits =>
      obtain ⟨⟨x, e⟩, hwhole, heq⟩ := bind_eq_ok_iff.1 hnumber
      rw [← pure_eq_ok_iff.1 heq]
      rw [run_skipNumber_of_digit hrest (hvalue ▸ rfl) fun _ => hnext ▸ hdigits, ← hnext,
        skipDigits_of_isEmpty hdigits,
        reached_skipFraction (ran_of_ok hwhole)]
      rfl
    case isFalse => cases hnumber
  case isFalse hvalue =>
    split at hnumber
    case isTrue hdigit =>
      obtain ⟨⟨x, e⟩, hwhole, heq⟩ := bind_eq_ok_iff.1 hnumber
      rw [← pure_eq_ok_iff.1 heq]
      rw [run_skipNumber_of_digit hrest hdigit fun heq => absurd heq hvalue, ← hnext,
        reached_skipFraction (ran_of_ok hwhole)]
      rfl
    case isFalse => cases hnumber

end MailTemplate.Json
