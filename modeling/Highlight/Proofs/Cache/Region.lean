import Highlight.Cache.Edit
import Highlight.Proofs.Offset
import Highlight.Text.Byte

/-!
# What a recorded region says

A region is merged from edits one by one.  Two facts about it survive every
merge in which no sum of signed words wraps around.  If no edit replaces a range
that runs backwards, then the region starts within the old text as soon as it
ends within the new one: `Region.Ordered`.  If every edit describes a change
that was made, the old and the new text agree outside the region:
`Region.Covers`.

An end that stops at the largest word harms neither.  It lies behind every text,
and before it can come back into one the recorded change in length has become
negative.
-/

namespace Highlight

namespace Edit

/-- The replaced range does not run backwards, or the edit keeps the length, and
the change in length is the difference of the two ends: no cast of them wraps
around that would not cancel out. -/
structure Forward (edit : Edit) : Prop where
  exact : edit.delta = (edit.newStop : Int) - edit.oldStop
  ordered : edit.start ≤ edit.oldStop ∨ edit.delta = 0

theorem delta_of_fits {edit : Edit} (fits : Offset.Fits ((edit.newStop : Int) - edit.oldStop)) :
    edit.delta = (edit.newStop : Int) - edit.oldStop := by
  rw [delta, Offset.signed_sub_signed, Offset.signed_of_fits fits]

theorem delta_touch (start stop : Nat) : (touch start stop).delta = 0 := by
  rw [delta, touch, Int.sub_self, Offset.signed_zero]

theorem forward_touch (start stop : Nat) : (touch start stop).Forward where
  exact := by
    rw [delta_touch]
    exact (Int.sub_self _).symm
  ordered := Or.inr (delta_touch start stop)

/-- The texts before and after the edit agree in front of it and behind it, and
it changes the length by their difference. -/
structure Describes (edit : Edit) (old new : Bytes) : Prop extends edit.Forward where
  front : new.take edit.start = old.take edit.start
  back : new.drop edit.newStop = old.drop edit.oldStop
  delta_eq : edit.delta = (new.length : Int) - old.length
  comparable : Bytes.Comparable old new

theorem describes_touch (start stop : Nat) (text : Bytes) :
    (touch start stop).Describes text text where
  toForward := forward_touch start stop
  front := rfl
  back := rfl
  delta_eq := by rw [delta_touch, Int.sub_self]
  comparable := Or.inl rfl

theorem describes_replace {start stop : Nat} {text bytes : Bytes} (ordered : start ≤ stop)
    (inside : stop ≤ text.length) (before : Bytes.Addressable text)
    (after : Bytes.Addressable (text.take start ++ bytes ++ text.drop stop)) :
    (replace start stop bytes.length).Describes text
      (text.take start ++ bytes ++ text.drop stop) := by
  have frontLength : (text.take start).length = start := by
    rw [List.length_take]
    omega
  have newLength : (text.take start ++ bytes ++ text.drop stop).length + stop =
      start + bytes.length + text.length := by
    rw [List.length_append, List.length_append, frontLength, List.length_drop]
    omega
  have comparable : Bytes.Comparable text (text.take start ++ bytes ++ text.drop stop) :=
    Or.inr ⟨before, after⟩
  have changeEq : ((start + bytes.length : Nat) : Int) - stop =
      ((text.take start ++ bytes ++ text.drop stop).length : Int) - text.length := by
    omega
  have exact : (replace start stop bytes.length).delta =
      ((start + bytes.length : Nat) : Int) - stop := by
    refine delta_of_fits ?_
    rw [replace, changeEq]
    exact comparable.fits
  constructor
  · exact ⟨exact, Or.inl ordered⟩
  · change (text.take start ++ bytes ++ text.drop stop).take start = text.take start
    rw [List.append_assoc, List.take_left' frontLength]
  · change (text.take start ++ bytes ++ text.drop stop).drop (start + bytes.length) =
      text.drop stop
    rw [List.drop_left']
    rw [List.length_append, frontLength]
  · rw [exact, changeEq]
  · exact comparable

end Edit

namespace Region

/-! ## The end of a merged region -/

/-- The end of the merged region lies behind the new bytes of the edit. -/
theorem newStop_le_stop_merge (region : Region) (edit : Edit) :
    edit.newStop ≤ (region.merge edit).stop :=
  Nat.le_max_right _ _

/-- The end of the merged region lies behind the moved end of the region, unless
it is the largest word. -/
theorem stop_add_delta_le_stop_merge (region : Region) {edit : Edit} (forward : edit.Forward) :
    (region.stop : Int) + edit.delta ≤ (region.merge edit).stop ∨
      Offset.largest ≤ (region.merge edit).stop := by
  have newLe := region.newStop_le_stop_merge edit
  have movedLe : movedStop region.stop edit ≤ (region.merge edit).stop := Nat.le_max_left _ _
  obtain ⟨exact, ordered⟩ := forward
  unfold movedStop at movedLe
  split at movedLe
  · left
    omega
  · split at movedLe
    · left
      omega
    · rcases Offset.saturatingAdd_cases region.stop edit.delta with saturated | moved
      · right
        omega
      · left
        omega

/-- The merged region records both changes if their sum is a signed word. -/
theorem delta_merge {region : Region} {edit : Edit}
    (fits : Offset.Fits (region.delta + edit.delta)) :
    (region.merge edit).delta = region.delta + edit.delta :=
  Offset.signed_of_fits fits

/-! ## Regions in order -/

/-- The region, seen in the old text, starts before it ends, unless nothing was
moved or it ends there behind every text. -/
def Ordered (region : Region) : Prop :=
  (region.start : Int) + region.delta ≤ region.stop ∨ region.delta = 0 ∨
    (Offset.longest : Int) + region.delta < region.stop

theorem ordered_ofEdit {edit : Edit} (forward : edit.Forward) : (ofEdit edit).Ordered := by
  obtain ⟨exact, ordered | unchanged⟩ := forward
  · left
    simp only [ofEdit]
    omega
  · exact Or.inr (Or.inl unchanged)

theorem Ordered.merge {region : Region} {edit : Edit} (ordered : region.Ordered)
    (forward : edit.Forward) (fits : Offset.Fits (region.delta + edit.delta)) :
    (region.merge edit).Ordered := by
  have newLe := region.newStop_le_stop_merge edit
  have startEq : (region.merge edit).start = min region.start edit.start := rfl
  have deltaEq := delta_merge fits
  have deltaLe := fits.2
  obtain stopLe | saturated := region.stop_add_delta_le_stop_merge forward
  · obtain ⟨exact, editOrdered⟩ := forward
    rcases ordered with ordered | unchanged | beyond
    · left
      omega
    · rcases editOrdered with editOrdered | editUnchanged
      · left
        omega
      · right; left
        omega
    · right; right
      omega
  · right; right
    simp only [Offset.largest, Offset.longest] at *
    omega

/-- A region in order that ends within a text starts in the old one, as far as
its change in length goes. -/
theorem Ordered.start_add_delta_le {region : Region} {text : Bytes} (ordered : region.Ordered)
    (addressable : Bytes.Addressable text) (inside : region.stop ≤ text.length)
    (longer : 0 < region.delta) : (region.start : Int) + region.delta ≤ region.stop := by
  rw [Bytes.Addressable] at addressable
  rcases ordered with ordered | unchanged | beyond
  · exact ordered
  · omega
  · omega

/-! ## Regions that cover the changes -/

/-- The old and the new text agree in front of the region and behind it, and
their lengths differ by what is recorded. -/
structure Covers (region : Region) (old new : Bytes) : Prop where
  front : new.take region.start = old.take region.start
  back : ∃ oldStop : Nat, (oldStop : Int) + region.delta = region.stop ∧
    new.drop region.stop = old.drop oldStop
  delta_eq : region.delta = (new.length : Int) - old.length
  comparable : Bytes.Comparable old new

theorem covers_ofEdit {edit : Edit} {old new : Bytes} (describes : edit.Describes old new) :
    (ofEdit edit).Covers old new where
  front := describes.front
  back := by
    refine ⟨edit.oldStop, ?_, describes.back⟩
    change (edit.oldStop : Int) + edit.delta = edit.newStop
    rw [describes.exact]
    omega
  delta_eq := describes.delta_eq
  comparable := describes.comparable

theorem Covers.delta_merge {region : Region} {edit : Edit} {old middle new : Bytes}
    (covers : region.Covers old middle) (describes : edit.Describes middle new) :
    (region.merge edit).delta = region.delta + edit.delta := by
  refine Region.delta_merge ?_
  have sumEq : region.delta + edit.delta = (new.length : Int) - old.length := by
    rw [covers.delta_eq, describes.delta_eq]
    omega
  rw [sumEq]
  exact (covers.comparable.trans describes.comparable).fits

/-- Behind the end of the merged region the new text is the rest of the old one. -/
theorem Covers.back_merge {region : Region} {edit : Edit} {old middle new : Bytes}
    (covers : region.Covers old middle) (describes : edit.Describes middle new) :
    ∃ oldStop : Nat, (oldStop : Int) + (region.merge edit).delta = (region.merge edit).stop ∧
      new.drop (region.merge edit).stop = old.drop oldStop := by
  have newLe := region.newStop_le_stop_merge edit
  have exact := describes.exact
  rw [covers.delta_merge describes]
  obtain stopLe | saturated := region.stop_add_delta_le_stop_merge describes.toForward
  · obtain ⟨oldStop, oldStopEq, backEq⟩ := covers.back
    generalize (region.merge edit).stop = stop at *
    -- The end of the merged region as an offset of the text in between.
    obtain ⟨middleStop, middleStopEq⟩ :
        ∃ middleStop : Nat, (middleStop : Int) + edit.delta = stop :=
      ⟨((stop : Int) - edit.delta).toNat, by omega⟩
    refine ⟨oldStop + (middleStop - region.stop), by omega, ?_⟩
    calc
      new.drop stop = (new.drop edit.newStop).drop (stop - edit.newStop) := by
          rw [List.drop_drop, Nat.add_sub_cancel' newLe]
      _ = middle.drop (edit.oldStop + (stop - edit.newStop)) := by
          rw [describes.back, List.drop_drop]
      _ = middle.drop (region.stop + (middleStop - region.stop)) := by
          congr 1
          omega
      _ = old.drop (oldStop + (middleStop - region.stop)) := by
          rw [← List.drop_drop, backEq, List.drop_drop]
  · -- Nothing follows the largest word in either text.
    rw [covers.delta_eq, describes.delta_eq]
    generalize (region.merge edit).stop = stop at *
    rcases covers.comparable.trans describes.comparable with rfl | ⟨oldAddressable, newAddressable⟩
    · exact ⟨stop, by omega, rfl⟩
    · simp only [Bytes.Addressable, Offset.longest, Offset.largest] at *
      refine ⟨stop + old.length - new.length, by omega, ?_⟩
      rw [List.drop_eq_nil_of_le (by omega), List.drop_eq_nil_of_le (by omega)]

theorem Covers.merge {region : Region} {edit : Edit} {old middle new : Bytes}
    (covers : region.Covers old middle) (describes : edit.Describes middle new) :
    (region.merge edit).Covers old new := by
  constructor
  · change new.take (min region.start edit.start) = old.take (min region.start edit.start)
    calc
      new.take (min region.start edit.start)
        = (new.take edit.start).take region.start := by rw [List.take_take]
      _ = (middle.take edit.start).take region.start := by rw [describes.front]
      _ = (middle.take region.start).take edit.start := by
          rw [List.take_take, List.take_take, Nat.min_comm]
      _ = (old.take region.start).take edit.start := by rw [covers.front]
      _ = old.take (min region.start edit.start) := by rw [List.take_take, Nat.min_comm]
  · exact covers.back_merge describes
  · rw [covers.delta_merge describes, covers.delta_eq, describes.delta_eq]
    omega
  · exact covers.comparable.trans describes.comparable

/-- An offset behind the region has one in the old text that the same bytes
follow. -/
theorem Covers.exists_offset {region : Region} {old new : Bytes} (covers : region.Covers old new)
    {place : Nat} (behind : region.stop ≤ place) :
    ∃ oldPlace : Nat, (oldPlace : Int) + region.delta = place ∧
      new.drop place = old.drop oldPlace := by
  obtain ⟨oldStop, oldStopEq, backEq⟩ := covers.back
  obtain ⟨distance, rfl⟩ := Nat.exists_eq_add_of_le behind
  refine ⟨oldStop + distance, by omega, ?_⟩
  rw [← List.drop_drop, backEq, List.drop_drop]

end Region

end Highlight
