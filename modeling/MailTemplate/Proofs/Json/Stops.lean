import MailTemplate.Json.Skip
import MailTemplate.Proofs.Json.Places

/-!
# Where the Readers of JSON Stop

All readers of JSON stop at places of the text, those that pass over a value as those that keep it.
An exponent that is too large is reported at the digit that makes it so, and the digits before that
one are bytes that were passed.

* `readValue_local` and `skipValue_local` are about whole values.
* `readList_local`, `readObject_local` and `readRecordAs_local` lift readers of parts.
* `covers_of_readText` is about the errors of a whole text.
-/

namespace MailTemplate.Json

open Cursor

/-! ## Strings -/

theorem hexEscape_local : hexEscape.Local := by
  intro c
  unfold hexEscape
  split
  case h_1 w x y z rest hrest =>
    split
    case h_1 => exact .ok ⟨[w, x, y, z], hrest, rfl⟩
    case h_2 => exact .error ⟨4, rfl⟩
  case h_2 => exact .error ⟨4, rfl⟩

theorem pairPart_local (x : Char) : (pairPart x).Local := by
  intro c
  unfold pairPart
  split
  case h_1 => exact .fail (.refl c) _
  case h_2 =>
    split
    · exact .ok (.step c)
    · exact .failNext (.refl c) _

theorem unicodeEscape_local : unicodeEscape.Local := by
  intro c
  unfold unicodeEscape
  refine (hexEscape_local c).bind fun first hfirst => .guard hfirst.covers_position ?_
  split
  · refine .since hfirst ((pairPart_local '\\' _).bind fun slash hslash => .since hslash ?_)
    refine (pairPart_local 'u' _).bind fun letter hletter => .since hletter ?_
    refine (hexEscape_local _).bind fun second hsecond => ?_
    split
    · exact .ok hsecond
    · exact .fail hsecond _
  · exact .ok hfirst

theorem escapeWith_local {unicode : Reader Char} (h : unicode.Local) :
    (escapeWith unicode).Local := by
  intro c
  unfold escapeWith
  split
  case h_1 => exact .fail (.refl c) _
  case h_2 x rest hrest =>
    dsimp only
    split
    · exact .ok (.step c)
    · split
      · exact .since (.step c) ((h c.step).bind fun _ hreach => .ok hreach)
      · exact .failNext (.refl c) _

theorem stringRest_local : stringRest.Local := by
  intro c
  fun_induction stringRest c with
  | case1 c => exact .fail (.refl c) _
  | case2 c => exact .ok (.step c)
  | case3 c rest hrest hlt hquote ih =>
    refine .since (.step c) ?_
    refine (escapeWith_local unicodeEscape_local c.step).bind fun y hy => .since hy ?_
    exact (ih y).bind fun s hs => .ok hs
  | case4 c => exact .failNext (.refl c) _
  | case5 c x rest hrest hlt hquote hslash hx ih =>
    exact .since (.step c) (ih.bind fun s hs => .ok hs)

theorem readString_local : readString.Local := fun c =>
  (stringRest_local c).bind fun _ hreach => .ok hreach

/-! ## Numbers -/

theorem reaches_skipDigits (c : Cursor) : c.Reaches c.skipDigits.val :=
  .passWhile Char.isDigit c.position c.rest

theorem reaches_exponentSign (c : Cursor) : c.Reaches (exponentSign c).2.val := by
  unfold exponentSign
  split
  · exact .step c
  · exact .step c
  · exact .refl c

/-- A digit is one byte. -/
theorem after_of_isDigit (p : Position) {x : Char} (h : x.isDigit = true) :
    x.utf8Size = 1 ∧ p.after x = ⟨p.line, p.column + 1⟩ := by
  have hsize : x.utf8Size = 1 := by
    rw [Char.utf8Size_eq_one_iff]
    simp only [Char.isDigit, Bool.and_eq_true, decide_eq_true_eq] at h
    exact UInt32.le_trans h.2 (by decide)
  refine ⟨hsize, ?_⟩
  rw [Position.after, hsize, if_neg]
  rintro rfl
  cases h

/-- Counting some of the digits that come first passes so many bytes of one line. -/
theorem afterBytes_digits (p : Position) {n : Nat} {chars : List Char}
    (h : n ≤ (chars.takeWhile Char.isDigit).length) :
    p.afterBytes n chars = ⟨p.line, p.column + n⟩ := by
  induction n generalizing p chars with
  | zero => exact p.afterBytes_zero chars
  | succ n ih =>
    cases chars with
    | nil => cases h
    | cons x rest =>
      rw [List.takeWhile_cons] at h
      split at h
      case isTrue hdigit =>
        obtain ⟨hsize, hafter⟩ := after_of_isDigit p hdigit
        rw [Position.afterBytes_cons, hsize, if_pos (Nat.le_add_left 1 n), hafter,
          Nat.add_sub_cancel, ih _ (Nat.le_of_succ_le_succ h)]
        exact congrArg (Position.mk p.line) (by dsimp only; omega)
      case isFalse => cases h

/-- A run of digits does not pass a limit after its end. -/
theorem digitsPast?_le {limit value n : Nat} {digits : List Char}
    (h : digitsPast? limit value digits = some n) : n ≤ digits.length := by
  induction digits generalizing value n with
  | nil => cases h
  | cons x digits ih =>
    rw [digitsPast?] at h
    split at h
    · cases h
      exact Nat.succ_le_succ (Nat.zero_le _)
    · obtain ⟨more, hmore, rfl⟩ := Option.map_eq_some_iff.1 h
      exact Nat.succ_le_succ (ih hmore)

theorem floatAt_located (negative : Bool) (significand : Nat) (exponent : Int) (c : Cursor) :
    Located c (fun _ => c) (floatAt negative significand exponent c) := by
  unfold floatAt
  split
  · exact .ok (.refl c)
  · exact .fail (.refl c) _

theorem exponentPart_located (negative : Bool) (significand : Nat) (exponent : Int) (c : Cursor) :
    Located c (fun x => x.2.val) (exponentPart negative significand exponent c) := by
  unfold exponentPart
  have hsign := reaches_exponentSign c
  have hnext := hsign.trans (reaches_skipDigits _)
  dsimp only
  split
  · exact .failNext hsign _
  split
  case h_1 n hpast =>
    split
    · exact .error (hsign.covers ⟨n, (afterBytes_digits _ (digitsPast?_le hpast)).symm⟩)
    · exact .ok hnext
  case h_2 =>
    exact .since hnext ((floatAt_located _ _ _ _).bind fun x hx => .ok hx)

theorem afterDigits_located (negative : Bool) (significand : Nat) (exponent : Int) (c : Cursor) :
    Located c (fun x => x.2.val) (afterDigits negative significand exponent c) := by
  unfold afterDigits
  split
  · exact .since (.step c) ((exponentPart_located _ _ _ _).bind fun x hx => .ok hx)
  · exact (floatAt_located _ _ _ c).bind fun x hx => .ok hx

theorem fractionPart_located (negative : Bool) (whole : Number.Digits) (c : Cursor) :
    Located c (fun x => x.2.val) (fractionPart negative whole c) := by
  unfold fractionPart
  dsimp only
  split
  · exact .failNext (.refl c) _
  · exact .since (reaches_skipDigits c) ((afterDigits_located _ _ _ _).bind fun x hx => .ok hx)

theorem afterWhole_located (negative : Bool) (whole : Number.Digits) (c : Cursor) :
    Located c (fun x => x.2.val) (afterWhole negative whole c) := by
  unfold afterWhole
  split
  · exact .since (.step c) ((fractionPart_located _ _ _).bind fun x hx => .ok hx)
  split
  · exact afterDigits_located _ _ _ c
  split
  · exact .ok (.refl c)
  · exact .fail (.refl c) _

theorem readNumber_local (negative : Bool) : (readNumber negative).Local := by
  intro c
  unfold readNumber
  refine (readChar_local c).bind fun first hfirst => ?_
  dsimp only
  split
  · split
    · exact .since hfirst ((afterWhole_located _ _ _).bind fun x hx => .ok hx)
    · exact .failNext hfirst _
  split
  · exact .since (hfirst.trans (reaches_skipDigits _))
      ((afterWhole_located _ _ _).bind fun x hx => .ok hx)
  · exact .failNext (.refl c) _

theorem letters_located (xs : List Char) (c : Cursor) : Located c Subtype.val (letters xs c) := by
  induction xs generalizing c with
  | nil => exact .ok (.refl c)
  | cons x xs ih =>
    rw [letters]
    split
    · exact .fail (.refl c) _
    split
    · exact .since (.step c) ((ih c.step).bind fun d hd => .ok hd)
    · exact .failNext (.refl c) _

theorem readScalarAt_local {container : Reader Json} (h : container.Local) :
    (readScalarAt container).Local := by
  intro c
  unfold readScalarAt
  refine (readChar_local c).bind fun first hfirst => ?_
  split
  · exact .since hfirst ((letters_located _ _).bind fun d hd => .ok hd)
  · exact .since hfirst ((letters_located _ _).bind fun d hd => .ok hd)
  · exact .since hfirst ((letters_located _ _).bind fun d hd => .ok hd)
  · exact .since hfirst ((readString_local _).bind fun s hs => .ok hs)
  · exact .since hfirst ((readNumber_local true _).bind fun s hs => .ok hs)
  · exact h c
  · exact h c
  · split
    · exact (readNumber_local false c).bind fun s hs => .ok hs
    · exact .failNext (.refl c) _

theorem readScalarOr_local {container : Reader Json} (h : container.Local) :
    (readScalarOr container).Local :=
  (readScalarAt_local h).afterBlanks

/-! ## Lists and objects -/

theorem reaches_afterComma (c : Cursor) : c.Reaches c.skipBlanks.step.skipBlanks :=
  (Reaches.skipBlanks c).trans ((Reaches.step _).trans (.skipBlanks _))

theorem nextItem_located (isFirst : Bool) (c : Cursor) :
    Located c (fun x => x.2.val) (nextItem isFirst c) := by
  unfold nextItem
  dsimp only
  split
  · exact .fail (.skipBlanks c) _
  · exact .ok (.skipBlanks c)
  split
  · exact .ok (.skipBlanks c)
  split
  · split
    · exact .fail (reaches_afterComma c) _
    · exact .failNext (reaches_afterComma c) _
    · exact .ok (reaches_afterComma c)
  · exact .failNext (.skipBlanks c) _

theorem keyPlace_located (isFirst : Bool) (c : Cursor) :
    Located c Subtype.val (keyPlace isFirst c) := by
  unfold keyPlace
  dsimp only
  split
  · exact .fail (.skipBlanks c) _
  · exact .ok (.skipBlanks c)
  split
  · exact .ok (.skipBlanks c)
  split
  · split
    · exact .fail (reaches_afterComma c) _
    · exact .failNext (reaches_afterComma c) _
    · exact .ok (reaches_afterComma c)
  · exact .failNext (.skipBlanks c) _

theorem nextKey_located (isFirst : Bool) (c : Cursor) :
    Located c (Sum.elim Subtype.val Step.next) (nextKey isFirst c) := by
  unfold nextKey
  refine (keyPlace_located isFirst c).bind fun d hd => ?_
  split
  · exact .ok hd
  · exact .since (hd.trans (.step _)) ((readString_local _).bind fun s hs => .ok hs)
  · exact .failNext hd _

theorem passColon_located (c : Cursor) : Located c Subtype.val (passColon c) := by
  unfold passColon
  dsimp only
  split
  · exact .fail (.skipBlanks c) _
  · exact .ok ((Reaches.skipBlanks c).trans (.step _))
  · exact .failNext (.skipBlanks c) _

theorem closeList_located (c : Cursor) : Located c Subtype.val (closeList c) := by
  unfold closeList
  dsimp only
  split
  · exact .fail (.skipBlanks c) _
  · exact .ok ((Reaches.skipBlanks c).trans (.step _))
  · split <;> exact .failNext (reaches_afterComma c) _
  · exact .failNext (.skipBlanks c) _

theorem closeObject_located (c : Cursor) : Located c Subtype.val (closeObject c) := by
  unfold closeObject
  dsimp only
  split
  · exact .fail (.skipBlanks c) _
  · exact .ok ((Reaches.skipBlanks c).trans (.step _))
  · exact .failNext (.skipBlanks c) _
  · exact .failNext (.skipBlanks c) _

theorem reaches_pastList (c : Cursor) : c.Reaches c.pastList := by
  unfold pastList
  dsimp only
  split
  · exact (Reaches.skipBlanks c).trans (.step _)
  · exact reaches_afterComma c
  · exact .skipBlanks c

theorem reaches_pastObject (c : Cursor) : c.Reaches c.pastObject := by
  unfold pastObject
  dsimp only
  split
  · exact (Reaches.skipBlanks c).trans (.step _)
  · exact .skipBlanks c

variable {α σ : Type}

theorem readItems_located {item : Reader α} (h : item.Local) (isFirst : Bool) (c : Cursor) :
    Located c (fun x => x.2.val) (readItems item isFirst c) := by
  fun_induction readItems item isFirst c with
  | case1 isFirst c ih =>
    refine (nextItem_located isFirst c).bind fun more hmore => ?_
    split
    · exact .ok hmore
    case h_2 d =>
      refine .since hmore ((h d.val).bind fun x hx => .since hx ?_)
      exact (ih d x).bind fun xs hxs => .ok hxs

theorem readMembers_located {member : σ → String → (c : Cursor) → Except ReadError (σ × c.Onward)}
    (h : ∀ state key c, Located c (fun x => x.2.val) (member state key c)) (isFirst : Bool)
    (state : σ) (c : Cursor) :
    Located c (fun x => x.2.val) (readMembers member isFirst state c) := by
  fun_induction readMembers member isFirst state c with
  | case1 isFirst state c ih =>
    refine (nextKey_located isFirst c).bind fun next hnext => ?_
    split
    · exact .ok hnext
    case h_2 key =>
      refine .since hnext ((h state key.value key.next).bind fun x hx => .since hx ?_)
      exact (ih key x.1 x.2).bind fun y hy => .ok hy

theorem readList_local {item : Reader α} (h : item.Local) : (readList item).Local := by
  intro c
  unfold readList
  refine (readChar_local c).bind fun opening hopening => .since hopening ?_
  refine (readItems_located h true _).bind fun x hx => .since hx ?_
  exact (closeList_located _).bind fun d hd => .ok hd

theorem readObject_local {member : σ → String → (c : Cursor) → Except ReadError (σ × c.Onward)}
    (h : ∀ state key c, Located c (fun x => x.2.val) (member state key c)) (state : σ) :
    (readObject member state).Local := by
  intro c
  unfold readObject
  refine (readChar_local c).bind fun opening hopening => .since hopening ?_
  refine (readMembers_located h true state _).bind fun x hx => .since hx ?_
  exact (closeObject_located _).bind fun d hd => .ok hd

theorem memberValue_located {value : Reader α} (h : value.Local) (c : Cursor) :
    Located c (fun x => x.2.val) (memberValue value c) := by
  unfold memberValue
  refine (passColon_located c).bind fun d hd => .since hd ?_
  exact (h d.val).bind fun x hx => .ok hx

/-! ## Values -/

theorem readContainer_local {value : Reader Json} (h : value.Local) :
    (readContainer value).Local := by
  intro c
  unfold readContainer
  split
  · exact (readList_local h c).bind fun x hx => .ok hx
  · refine (readObject_local (fun ms key d => ?_) [] c).bind fun x hx => .ok hx
    exact (memberValue_located h d).bind fun x hx => .ok hx

theorem readValue_local (depth : Nat) : (readValue depth).Local := by
  induction depth with
  | zero => exact readScalarOr_local fun c => .failNext (.refl c) _
  | succ depth ih => exact readScalarOr_local (readContainer_local ih)

/-- The error of a value of another type lies in what remains. -/
theorem covers_wrongTypeAt (expected : String) (c : Cursor) :
    c.Covers (wrongTypeAt expected c).position := by
  unfold wrongTypeAt
  dsimp only
  split
  case h_1 x hread =>
    have hlocated := hread ▸ readScalarOr_local (fun d => .misfit (.refl d) _) c
    exact hlocated.reaches.covers_position
  case h_2 e hread =>
    have hlocated := hread ▸ readScalarOr_local (fun d => .misfit (.refl d) _) c
    exact hlocated.covers

theorem readStringAs_local (expected : String) : (readStringAs expected).Local := by
  refine Reader.Local.afterBlanks fun c => ?_
  split
  · exact .fail (.refl c) _
  · refine (readChar_local c).bind fun opening hopening => .since hopening ?_
    exact (readString_local _).bind fun s hs => .ok hs
  · exact .error (covers_wrongTypeAt expected c)

theorem readRecordAs_local (expected : String) {object list : Reader α} (hobject : object.Local)
    (hlist : list.Local) : (readRecordAs expected object list).Local := by
  refine Reader.Local.afterBlanks fun c => ?_
  split
  · exact .fail (.refl c) _
  · exact hobject c
  · exact hlist c
  · exact .error (covers_wrongTypeAt expected c)

/-- An error in a text is reported at a position of the text. -/
theorem covers_of_readText {reader : Reader α} (h : reader.Local) {text : String} {e : ReadError}
    (herror : readText reader text = .error e) : (Cursor.start text).Covers e.position := by
  have hlocated : Located (start text) (fun _ => start text) (readText reader text) := by
    unfold readText
    refine (h (start text)).bind fun x hx => ?_
    dsimp only
    split
    · exact .ok (.refl _)
    · exact .failNext (hx.trans (.skipBlanks _)) _
  exact (herror ▸ hlocated).covers

/-! ## Passing over values -/

theorem skipString_located (c : Cursor) : Located c Step.next (skipString c) := by
  fun_induction skipString c with
  | case1 c => exact .fail (.refl c) _
  | case2 c => exact .ok (.step c)
  | case3 c rest hrest hlt hquote ih =>
    refine .since (.step c) ?_
    refine (escapeWith_local ?_ c.step).bind fun y hy => .since hy ?_
    · exact fun d => (hexEscape_local d).bind fun x hx => .ok hx
    · exact (ih y).bind fun s hs => .ok hs
  | case4 c => exact .fail (.refl c) _
  | case5 c x rest hrest hlt hquote hslash hx ih =>
    exact .since (.step c) (ih.bind fun s hs => .ok hs)

theorem skipExponent_located (c : Cursor) : Located c Subtype.val (skipExponent c) := by
  unfold skipExponent
  have hsign := (Reaches.step c).trans (reaches_exponentSign c.step)
  dsimp only
  split
  · split
    · exact .failNext hsign _
    · exact .ok (hsign.trans (reaches_skipDigits _))
  · exact .ok (.refl c)

theorem skipFraction_located (c : Cursor) : Located c Subtype.val (skipFraction c) := by
  unfold skipFraction
  split
  · split
    · exact .failNext (.step c) _
    · exact .since ((Reaches.step c).trans (reaches_skipDigits _))
        ((skipExponent_located _).bind fun d hd => .ok hd)
  · exact skipExponent_located c

theorem skipNumber_local : skipNumber.Local := by
  intro c
  unfold skipNumber
  refine .guard (Reaches.refl c).covers_position ?_
  refine (readChar_local c).bind fun first hfirst => ?_
  dsimp only
  split
  · exact .failNext hfirst _
  split
  · exact .since (hfirst.trans (reaches_skipDigits _))
      ((skipFraction_located _).bind fun d hd => .ok hd)
  · exact .failNext (.refl c) _

theorem skipKey_located (c : Cursor) : Located c Subtype.val (skipKey c) := by
  unfold skipKey
  dsimp only
  split
  · exact .fail (.skipBlanks c) _
  · refine .since ((Reaches.skipBlanks c).trans (.step _)) ?_
    refine (skipString_located _).bind fun s hs => .since hs ?_
    exact (passColon_located _).bind fun d hd => .ok hd
  · exact .failNext (.skipBlanks c) _

theorem skipToValue_located (bracket : Bracket) (c : Cursor) :
    Located c Subtype.val (skipToValue bracket c) := by
  cases bracket with
  | list => exact .ok (.refl c)
  | object => exact skipKey_located c

theorem skipScalar_local : skipScalar.Local := by
  refine Reader.Local.afterBlanks fun c => ?_
  refine (readChar_local c).bind fun first hfirst => ?_
  split
  · exact .since hfirst ((letters_located _ _).bind fun d hd => .ok hd)
  · exact .since hfirst ((letters_located _ _).bind fun d hd => .ok hd)
  · exact .since hfirst ((letters_located _ _).bind fun d hd => .ok hd)
  · exact .since hfirst ((skipString_located _).bind fun s hs => .ok hs)
  · exact .since hfirst ((skipNumber_local _).bind fun s hs => .ok hs)
  · exact .ok hfirst
  · exact .ok hfirst
  · split
    · exact (skipNumber_local c).bind fun s hs => .ok hs
    · exact .failNext (.refl c) _

theorem skipSeparator_located (bracket : Bracket) (afterValue : Bool) (c : Cursor) :
    Located c (fun x => x.2.val) (skipSeparator bracket afterValue c) := by
  unfold skipSeparator
  dsimp only
  split
  · exact .fail (.skipBlanks c) _
  split
  · exact .ok ((Reaches.skipBlanks c).trans (.step _))
  split
  · exact .ok (.skipBlanks c)
  split
  · exact .ok ((Reaches.skipBlanks c).trans (.step _))
  · exact .failNext (.skipBlanks c) _

theorem skipClosings_located (afterValue : Bool) (stack : List Bracket) (c : Cursor) :
    Located c (fun x => x.2.val) (skipClosings afterValue stack c) := by
  induction stack generalizing afterValue c with
  | nil => exact .ok (.refl c)
  | cons bracket outer ih =>
    rw [skipClosings]
    refine (skipSeparator_located bracket afterValue c).bind fun x hx => .since hx ?_
    split
    · exact (ih true _).bind fun y hy => .ok hy
    · exact (skipToValue_located bracket _).bind fun d hd => .ok hd

theorem skipWithin_located (stack : List Bracket) (c : Cursor) :
    Located c Step.next (skipWithin stack c) := by
  fun_induction skipWithin stack c with
  | case1 stack c ih =>
    refine (skipScalar_local c).bind fun head hhead => .since hhead ?_
    refine (skipClosings_located _ _ _).bind fun ⟨left, d⟩ hd => .since hd ?_
    dsimp only
    split
    · exact .ok (.refl d.val)
    case h_2 hne =>
      exact (ih head d left).bind fun s hs => .ok hs

theorem skipValue_local : skipValue.Local :=
  skipWithin_located []

end MailTemplate.Json
