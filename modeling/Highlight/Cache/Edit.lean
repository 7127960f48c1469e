import Highlight.Offset

/-!
# Edits and the region they change

An edit replaces a byte range of a document.  The edits since the last update
are kept as one region in the coordinates of the current text, together with
the change in length.  Merging an edit into the region moves the end of the
region to where it lies once the edit is made.

Nothing says that an edit was made, and its offsets may be any words.  The
changes in length are signed words, which wrap around, and an end that is moved
stops at the largest word.
-/

namespace Highlight

/-- A replacement: the bytes from `start` to `oldStop` give way to bytes that
then reach from `start` to `newStop`. -/
structure Edit where
  start : Nat
  oldStop : Nat
  newStop : Nat
  deriving DecidableEq

namespace Edit

/-- New bytes at a place. -/
def insert (place length : Nat) : Edit :=
  ⟨place, place, place + length⟩

/-- Bytes taken out. -/
def delete (start stop : Nat) : Edit :=
  ⟨start, stop, start⟩

/-- Bytes replaced by `length` new ones. -/
def replace (start stop length : Nat) : Edit :=
  ⟨start, stop, start + length⟩

/-- A range that may have changed without a change of length. -/
def touch (start stop : Nat) : Edit :=
  ⟨start, stop, stop⟩

/-- The change in the length of the document: the difference of the two ends,
each cast to a signed word. -/
def delta (edit : Edit) : Int :=
  Offset.signed (Offset.signed edit.newStop - Offset.signed edit.oldStop)

end Edit

/-- The part of the current text that may differ from the text the tokens were
made for, and the difference in length. -/
structure Region where
  start : Nat
  stop : Nat
  delta : Int
  deriving DecidableEq

namespace Region

/-- The region of one edit. -/
def ofEdit (edit : Edit) : Region :=
  ⟨edit.start, edit.newStop, edit.delta⟩

/-- Where the end of a region lies once an edit is made.  An end inside the
replaced range goes to the end of the new bytes, an end behind it moves along
and stops at zero and at the largest word. -/
def movedStop (stop : Nat) (edit : Edit) : Nat :=
  if stop < edit.start then stop
  else if stop < edit.oldStop then edit.newStop
  else Offset.saturatingAdd stop edit.delta

/-- The region that covers an earlier one and a further edit. -/
def merge (region : Region) (edit : Edit) : Region where
  start := min region.start edit.start
  stop := max (movedStop region.stop edit) edit.newStop
  delta := Offset.signed (region.delta + edit.delta)

end Region

end Highlight
