import MailTemplate.Json.Cursor
import Mathlib.Data.String.Basic

/-!
# Where Readers Stop

A reader goes on in the text from the place where it begins, and an error that it reports lies in
what remains there. Positions stand for numbers of bytes that were read, so every position that
comes up while a text is read is one of the text.

* `Cursor.Reaches` says that a place is further on in the same text, `Cursor.Covers` that a position
  lies in what remains.
* `Located` says so of what a reader comes to; `Located.bind` puts readers together.
-/

namespace MailTemplate.Json

open String (utf8Len)

namespace Position

theorem afterBytes_zero (p : Position) (chars : List Char) : p.afterBytes 0 chars = p := by
  cases chars <;> rfl

theorem afterBytes_cons (p : Position) (bytes : Nat) (x : Char) (rest : List Char) :
    p.afterBytes bytes (x :: rest) =
      if x.utf8Size ≤ bytes then (p.after x).afterBytes (bytes - x.utf8Size) rest
      else ⟨p.line, p.column + bytes⟩ := by
  cases bytes with
  | zero => rw [if_neg (Nat.not_le.2 x.utf8Size_pos)]; rfl
  | succ bytes => rfl

/-- Characters that were passed count with their bytes. -/
theorem afterBytes_append (p : Position) (passed rest : List Char) (bytes : Nat) :
    p.afterBytes (utf8Len passed + bytes) (passed ++ rest) =
      (passed.foldl after p).afterBytes bytes rest := by
  induction passed generalizing p with
  | nil => rw [String.utf8Len_nil, Nat.zero_add]; rfl
  | cons x passed ih =>
    have hleft : utf8Len passed + x.utf8Size + bytes - x.utf8Size = utf8Len passed + bytes := by
      omega
    rw [List.cons_append, afterBytes_cons, String.utf8Len_cons, if_pos (by omega), hleft]
    exact ih (p.after x)

/-- A position that counts the next byte is the one after that byte. -/
theorem afterByte_eq (p : Position) (x : Char) (rest : List Char) :
    p.afterByte x = p.afterBytes 1 (x :: rest) := by
  rw [afterBytes_cons, afterByte, after]
  have hpos := x.utf8Size_pos
  by_cases hbreak : x = '\n'
  · subst hbreak
    rw [if_pos rfl, if_pos (by decide), if_pos rfl]
    exact (afterBytes_zero _ _).symm
  · rw [if_neg hbreak, if_neg hbreak]
    split
    case isTrue hle =>
      rw [show x.utf8Size = 1 by omega, afterBytes_zero]
    case isFalse => rfl

end Position

namespace Cursor

/-- A place is further on: some characters of what remains were passed, and the position has moved
over them. -/
def Reaches (c d : Cursor) : Prop :=
  ∃ passed : List Char, c.rest = passed ++ d.rest ∧
    d.position = passed.foldl Position.after c.position

/-- A position is that after some bytes of what remains. -/
def Covers (c : Cursor) (p : Position) : Prop :=
  ∃ bytes, p = c.position.afterBytes bytes c.rest

variable {c d e : Cursor} {p : Position}

namespace Reaches

theorem refl (c : Cursor) : c.Reaches c := ⟨[], rfl, rfl⟩

theorem trans (h : c.Reaches d) (h' : d.Reaches e) : c.Reaches e := by
  obtain ⟨passed, hrest, hposition⟩ := h
  obtain ⟨more, hrest', hposition'⟩ := h'
  refine ⟨passed ++ more, ?_, ?_⟩
  · rw [hrest, hrest', List.append_assoc]
  · rw [hposition', hposition, List.foldl_append]

theorem step (c : Cursor) : c.Reaches c.step := by
  unfold Cursor.step
  split
  case h_1 => exact refl c
  case h_2 x rest hrest => exact ⟨[x], hrest, rfl⟩

theorem passWhile (test : Char → Bool) (position : Position) (rest : List Char) :
    Reaches ⟨position, rest⟩ (passWhile test position rest) := by
  induction rest generalizing position with
  | nil => exact refl _
  | cons x rest ih =>
    rw [Cursor.passWhile]
    split
    · exact (step ⟨position, x :: rest⟩).trans (ih _)
    · exact refl _

theorem skipBlanks (c : Cursor) : c.Reaches c.skipBlanks :=
  passWhile isBlank c.position c.rest

/-- What lies in the rest of a place lies in that of a place before it. -/
theorem covers (h : c.Reaches d) (hp : d.Covers p) : c.Covers p := by
  obtain ⟨passed, hrest, hposition⟩ := h
  obtain ⟨bytes, rfl⟩ := hp
  exact ⟨utf8Len passed + bytes, by rw [hrest, hposition, Position.afterBytes_append]⟩

/-- The errors about a place lie in the rest of a place before it. -/
theorem covers_position (h : c.Reaches d) : c.Covers d.position :=
  h.covers ⟨0, (Position.afterBytes_zero _ _).symm⟩

theorem covers_peeked (h : c.Reaches d) : c.Covers d.peeked := by
  refine h.covers ?_
  unfold peeked
  split
  case h_1 => exact (refl d).covers_position
  case h_2 x rest hrest => exact ⟨1, hrest ▸ Position.afterByte_eq _ _ _⟩

end Reaches

end Cursor

/-! ## What readers come to -/

variable {α β : Type} {c d : Cursor}

/-- Reading from a place has come to a place further on, or to an error in what remains. -/
inductive Located (c : Cursor) (place : α → Cursor) : Except ReadError α → Prop
  | ok {a : α} (h : c.Reaches (place a)) : Located c place (.ok a)
  | error {e : ReadError} (h : c.Covers e.position) : Located c place (.error e)

namespace Located

variable {place : α → Cursor} {place' : β → Cursor} {x : Except ReadError α}

theorem reaches {a : α} (h : Located c place (.ok a)) : c.Reaches (place a) := by
  cases h with
  | ok hreach => exact hreach

theorem covers {e : ReadError} (h : Located c place (.error e)) : c.Covers e.position := by
  cases h with
  | error hcover => exact hcover

/-- It may have begun at a place before. -/
theorem since (h : c.Reaches d) (hx : Located d place x) : Located c place x := by
  cases hx with
  | ok hreach => exact .ok (h.trans hreach)
  | error hcover => exact .error (h.covers hcover)

/-- What is done with a reading may go on from the place that it has come to. -/
theorem bind (hx : Located c place x) {f : α → Except ReadError β}
    (hf : ∀ a, c.Reaches (place a) → Located c place' (f a)) : Located c place' (x >>= f) := by
  cases hx with
  | ok hreach => exact hf _ hreach
  | error hcover => exact .error hcover

theorem guard {p : Prop} [Decidable p] {e : ReadError} {f : β → Except ReadError α}
    (he : c.Covers e.position) (hx : Located c place x) :
    Located c place (if p then throw e >>= f else x) := by
  split
  · exact .error he
  · exact hx

theorem fail (h : c.Reaches d) (f : Fault) : Located c place (.error (d.fail f)) :=
  .error h.covers_position

theorem failNext (h : c.Reaches d) (f : Fault) : Located c place (.error (d.failNext f)) :=
  .error h.covers_peeked

theorem misfit (h : c.Reaches d) (m : Mismatch) : Located c place (.error (d.misfit m)) :=
  .error h.covers_position

end Located

/-- All that a reader comes to is located in the text. -/
def Reader.Local (reader : Reader α) : Prop :=
  ∀ c, Located c Step.next (reader c)

theorem readChar_local : readChar.Local := by
  intro c
  unfold readChar
  split
  · exact .fail (.refl c) _
  · exact .ok (.step c)

theorem Reader.Local.afterBlanks {reader : Reader α} (h : reader.Local) :
    (afterBlanks reader).Local := fun c =>
  .since (.skipBlanks c) ((h c.skipBlanks).bind fun _ hreach => .ok hreach)

end MailTemplate.Json
