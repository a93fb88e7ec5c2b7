import MailTemplate.Proofs.Json.Stops
import MailTemplate.Storage.Repair

/-!
# Where the Readers of Stored Text Stop

An error in stored text is reported at a position of the text, by the strict reader as by the one
that only asks for JSON.

* `Records.covers_of_ofText` and `Tree.covers_of_ofText` say so.
-/

namespace MailTemplate

open Json Cursor

namespace Record

variable {α : Type}

theorem readNullable_local {reader : Reader α} (h : reader.Local) :
    (readNullable reader).Local := by
  refine Reader.Local.afterBlanks fun c => ?_
  split
  · refine (readChar_local c).bind fun first hfirst => .since hfirst ?_
    exact (letters_located _ _).bind fun d hd => .ok hd
  · exact (h c).bind fun x hx => .ok hx

theorem readIds_local : readIds.Local := by
  refine Reader.Local.afterBlanks fun c => ?_
  split
  · exact .fail (.refl c) _
  · exact readList_local (readStringAs_local _) c
  · exact .error (covers_wrongTypeAt _ c)

theorem readProperties_local : readProperties.Local := fun c =>
  (readValue_local _ c).bind fun _ hx => .ok hx

theorem readMember_local (draft : Draft) (member : Member) : (draft.readMember member).Local := by
  intro c
  cases member with
  | id => exact (readStringAs_local _ c).bind fun x hx => .ok hx
  | kind => exact (readStringAs_local _ c).bind fun x hx => .ok hx
  | parent => exact (readNullable_local (readStringAs_local _) c).bind fun x hx => .ok hx
  | properties => exact (readProperties_local c).bind fun x hx => .ok hx
  | children => exact (readNullable_local readIds_local c).bind fun x hx => .ok hx

theorem readKeyed_located (draft : Draft) (key : String) (c : Cursor) :
    Located c (fun x => x.2.val) (draft.readKeyed key c) := by
  unfold Draft.readKeyed
  split
  · exact (memberValue_located skipValue_local c).bind fun x hx => .ok hx
  split
  · exact .misfit (reaches_pastObject c) _
  · exact memberValue_located (readMember_local draft _) c

theorem readItems_located (draft : Draft) (isFirst : Bool) (members : List Member) (c : Cursor) :
    Located c (fun x => x.2.val) (draft.readItems isFirst members c) := by
  induction members generalizing draft isFirst c with
  | nil => exact .ok (.refl c)
  | cons member members ih =>
    rw [Draft.readItems]
    refine (nextItem_located isFirst c).bind fun more hmore => ?_
    split
    · exact .ok hmore
    case h_2 d =>
      refine .since hmore ((readMember_local draft member d.val).bind fun x hx => .since hx ?_)
      exact (ih _ _ _).bind fun y hy => .ok hy

theorem finish_located {c d : Cursor} (h : c.Reaches d) (outcome : Except Mismatch Record) :
    Located c (fun _ => c) (finish outcome d) := by
  cases outcome with
  | ok record => exact .ok (.refl c)
  | error mismatch => exact .misfit h mismatch

theorem readMembers_local : readMembers.Local := by
  intro c
  unfold readMembers
  refine (readChar_local c).bind fun opening hopening => .since hopening ?_
  refine (Json.readMembers_located readKeyed_located true _ _).bind fun x hx => .since hx ?_
  refine (finish_located (reaches_pastObject _) _).bind fun record _ => ?_
  exact (closeObject_located _).bind fun d hd => .ok hd

theorem readItems_local : readItems.Local := by
  intro c
  unfold readItems
  refine (readChar_local c).bind fun opening hopening => .since hopening ?_
  refine (readItems_located _ true _ _).bind fun x hx => .since hx ?_
  refine (finish_located (reaches_pastList _) _).bind fun record _ => ?_
  exact (closeList_located _).bind fun d hd => .ok hd

theorem read_local : read.Local :=
  readRecordAs_local _ readMembers_local readItems_local

end Record

variable {text : String} {e : ReadError}

theorem Records.read_local : Records.read.Local := by
  refine Reader.Local.afterBlanks fun c => ?_
  split
  · exact .fail (.refl c) _
  · refine readObject_local (fun records id d => ?_) ∅ c
    exact (memberValue_located Record.read_local d).bind fun x hx => .ok hx
  · exact .error (covers_wrongTypeAt _ c)

/-- The strict reader reports its errors at positions of the text. -/
theorem Records.covers_of_ofText (h : Records.ofText text = .error e) :
    (Cursor.start text).Covers e.position :=
  covers_of_readText Records.read_local h

/-- The other reader does so too. -/
theorem Tree.covers_of_ofText (h : Tree.ofText text = .error e) :
    (Cursor.start text).Covers e.position := by
  refine covers_of_readText (readValue_local maxDepth) ?_
  rw [Tree.ofText, Json.ofText] at h
  cases hread : readText (readValue maxDepth) text with
  | ok json =>
    rw [hread] at h
    cases h
  | error e =>
    rw [hread] at h
    cases h
    rfl

end MailTemplate
