import Highlight.Proofs.Cache.Equivalence

/-!
# What recorded splices come to

A splice puts bytes in the place of a range of a text.  The region that is
merged from some splices stands for a single one: it names a range of the first
text and a range of the last text, and around the two ranges the texts agree.

Ranges that are only touched are left out.  They need not lie within the text,
and then the merged region need not either.
-/

namespace Highlight

namespace Edit

/-- The edit puts a range of the new text in the place of a range of the old
one. -/
structure Replaces (edit : Edit) (old new : Bytes) : Prop extends edit.Describes old new where
  start_le_oldStop : edit.start ≤ edit.oldStop
  oldStop_le : edit.oldStop ≤ old.length
  start_le_newStop : edit.start ≤ edit.newStop
  newStop_le : edit.newStop ≤ new.length
  addressable : Bytes.Addressable new

theorem replaces_replace {start stop : Nat} {text bytes : Bytes} (ordered : start ≤ stop)
    (inside : stop ≤ text.length) (before : Bytes.Addressable text)
    (after : Bytes.Addressable (text.take start ++ bytes ++ text.drop stop)) :
    (replace start stop bytes.length).Replaces text
      (text.take start ++ bytes ++ text.drop stop) where
  toDescribes := describes_replace ordered inside before after
  start_le_oldStop := ordered
  oldStop_le := inside
  start_le_newStop := Nat.le_add_right _ _
  newStop_le := by
    simp only [replace, List.length_append, List.length_take]
    omega
  addressable := after

end Edit

namespace Region

/-- The region is a range of the new text that stands in the place of the range
of the old text which starts where it does and ends `delta` bytes before it
does. -/
structure Replaces (region : Region) (old new : Bytes) : Prop extends region.Covers old new where
  start_le_stop : region.start ≤ region.stop
  stop_le : region.stop ≤ new.length
  start_le_oldStop : (region.start : Int) ≤ region.stop - region.delta
  oldStop_le : (region.stop : Int) - region.delta ≤ old.length

/-- An end that moves along with the text behind an edit goes to the exact sum:
it is stopped neither at zero nor at the largest word.  The sum is at most
`length`. -/
def MovesWithin (region : Region) (edit : Edit) (length : Nat) : Prop :=
  edit.oldStop ≤ region.stop →
    (movedStop region.stop edit : Int) = region.stop + edit.delta ∧
      movedStop region.stop edit ≤ length

variable {region : Region} {edit : Edit} {old middle new : Bytes}

theorem replaces_ofEdit (replaces : edit.Replaces old new) : (ofEdit edit).Replaces old new where
  toCovers := covers_ofEdit replaces.toDescribes
  start_le_stop := replaces.start_le_newStop
  stop_le := replaces.newStop_le
  start_le_oldStop := by
    have ordered := replaces.start_le_oldStop
    simp only [ofEdit, replaces.exact]
    omega
  oldStop_le := by
    have inside := replaces.oldStop_le
    simp only [ofEdit, replaces.exact]
    omega

/-- An end behind the replaced range has all the bytes in front of it that the
edit takes away. -/
theorem movesWithin_of_replaces (inside : region.stop ≤ middle.length)
    (replaces : edit.Replaces middle new) : region.MovesWithin edit new.length := by
  intro behind
  have startLe := Nat.le_trans replaces.start_le_oldStop behind
  have exact := replaces.exact
  have deltaEq := replaces.delta_eq
  have newLe := replaces.addressable
  have movedEq : (movedStop region.stop edit : Int) = region.stop + edit.delta := by
    rw [movedStop, if_neg (Nat.not_lt.mpr startLe), if_neg (Nat.not_lt.mpr behind)]
    apply Offset.saturatingAdd_of_nonneg
    · omega
    · simp only [Bytes.Addressable, Offset.longest, Offset.largest] at *
      omega
  constructor
  · exact movedEq
  · omega

theorem movedStop_le_length (inside : region.stop ≤ middle.length)
    (replaces : edit.Replaces middle new) : movedStop region.stop edit ≤ new.length := by
  by_cases behind : edit.oldStop ≤ region.stop
  · exact (movesWithin_of_replaces inside replaces behind).2
  · have startLe := replaces.start_le_newStop
    have newLe := replaces.newStop_le
    unfold movedStop
    split
    · omega
    · rw [if_pos (Nat.lt_of_not_le behind)]
      exact newLe

/-- Merging takes the region of the changes so far to that of the changes with
one more edit. -/
theorem Replaces.merge (replaces : region.Replaces old middle)
    (further : edit.Replaces middle new) : (region.merge edit).Replaces old new := by
  have covers := replaces.toCovers.merge further.toDescribes
  have newStopLe := region.newStop_le_stop_merge edit
  have regionStartLe : (region.merge edit).start ≤ region.start := Nat.min_le_left _ _
  have editStartLe : (region.merge edit).start ≤ edit.start := Nat.min_le_right _ _
  have deltaEq := replaces.toCovers.delta_merge further.toDescribes
  have lengthEq := covers.delta_eq
  have inside : (region.merge edit).stop ≤ new.length :=
    Nat.max_le.mpr ⟨movedStop_le_length replaces.stop_le further, further.newStop_le⟩
  have movedLe : (region.stop : Int) + edit.delta ≤ (region.merge edit).stop := by
    rcases region.stop_add_delta_le_stop_merge further.toForward with moved | saturated
    · exact moved
    · have newLe := further.addressable
      simp only [Bytes.Addressable, Offset.longest, Offset.largest] at *
      omega
  exact {
    toCovers := covers
    start_le_stop := Nat.le_trans editStartLe (Nat.le_trans further.start_le_newStop newStopLe)
    stop_le := inside
    start_le_oldStop := by
      -- Seen in the old text, the merged end is not in front of the end so far.
      have startLeOldStop := replaces.start_le_oldStop
      omega
    oldStop_le := by omega }

end Region

namespace Document

/-- The action replaces bytes. -/
def Action.IsSplice : Action → Prop
  | .splice _ _ _ => True
  | .touch _ _ => False
  | .update _ => False

/-- The recorded region is what the changes since `old` come to; if none is
recorded, nothing has changed. -/
def Records (document : Document) (old : Bytes) : Prop :=
  match document.cache.pending with
  | none => document.text = old
  | some region => region.Replaces old document.text

variable {document : Document} {old : Bytes}

theorem Records.replaces (records : document.Records old) {region : Region}
    (pendingEq : document.cache.pending = some region) : region.Replaces old document.text := by
  rwa [Records, pendingEq] at records

/-- A splice leaves a region recorded, whether or not there was one before. -/
theorem Records.exists_region (records : document.Records old) {action : Action}
    (isSplice : action.IsSplice) (admits : document.Admits action) :
    ∃ region, (document.perform action).cache.pending = some region ∧
      region.Replaces old (document.perform action).text := by
  cases action with
  | splice start stop bytes =>
      obtain ⟨⟨ordered, inside⟩, before, after⟩ := admits
      have further := Edit.replaces_replace ordered inside before after
      cases pendingEq : document.cache.pending with
      | none =>
          rw [Records, pendingEq] at records
          subst records
          refine ⟨.ofEdit (.replace start stop bytes.length), ?_, Region.replaces_ofEdit further⟩
          simp only [Document.perform, TokenCache.edit, pendingEq]
      | some region =>
          refine ⟨region.merge (.replace start stop bytes.length), ?_,
            (records.replaces pendingEq).merge further⟩
          simp only [Document.perform, TokenCache.edit, pendingEq]
  | touch start stop => exact isSplice.elim
  | update force => exact isSplice.elim

theorem Records.perform (records : document.Records old) {action : Action}
    (isSplice : action.IsSplice) (admits : document.Admits action) :
    (document.perform action).Records old := by
  obtain ⟨region, pendingEq, replaces⟩ := records.exists_region isSplice admits
  rwa [Records, pendingEq]

theorem Records.performAll (records : document.Records old) {splices : List Action}
    (areSplices : ∀ action ∈ splices, action.IsSplice) (admits : document.AdmitsAll splices) :
    (document.performAll splices).Records old := by
  induction splices generalizing document with
  | nil => exact records
  | cons action rest ih =>
      obtain ⟨isSplice, restAreSplices⟩ := List.forall_mem_cons.mp areSplices
      exact ih (records.perform isSplice admits.1) restAreSplices admits.2

theorem performAll_concat (document : Document) (earlier : List Action) (action : Action) :
    document.performAll (earlier ++ [action]) = (document.performAll earlier).perform action :=
  List.foldl_append

theorem admitsAll_append (document : Document) (earlier later : List Action) :
    document.AdmitsAll (earlier ++ later) ↔
      document.AdmitsAll earlier ∧ (document.performAll earlier).AdmitsAll later := by
  induction earlier generalizing document with
  | nil => exact (and_iff_right trivial).symm
  | cons action rest ih =>
      rw [List.cons_append, AdmitsAll, AdmitsAll, ih, and_assoc]
      rfl

/-- Before each of some splices the changes so far are recorded, and the bytes
that it takes out are there. -/
theorem Records.before (records : document.Records old) {splices earlier : List Action}
    {action : Action} (areSplices : ∀ action ∈ splices, action.IsSplice)
    (admits : document.AdmitsAll splices) (begins : earlier ++ [action] <+: splices) :
    (document.performAll earlier).Records old ∧ (document.performAll earlier).Admits action := by
  obtain ⟨later, rfl⟩ := begins
  rw [List.append_assoc, admitsAll_append] at admits
  obtain ⟨earlierAdmits, actionAdmits, _⟩ := admits
  refine ⟨records.performAll ?_ earlierAdmits, actionAdmits⟩
  intro action member
  exact areSplices action (by simp [member])

/-- The region recorded for some splices lies within the new text and, moved
back by the change in length, within the old one; in front of it and behind it
the two texts agree.  On the way to it, an end that is moved along is never
stopped at zero or at the largest word, nor does it go beyond the text. -/
theorem pending_performAll_splices {document : Document} (settled : document.cache.pending = none)
    {splices : List Action} (nonempty : splices ≠ [])
    (areSplices : ∀ action ∈ splices, action.IsSplice) (admits : document.AdmitsAll splices) :
    (∃ region, (document.performAll splices).cache.pending = some region ∧
      region.Replaces document.text (document.performAll splices).text) ∧
    ∀ earlier start stop bytes, earlier ++ [.splice start stop bytes] <+: splices →
      ∀ region, (document.performAll earlier).cache.pending = some region →
        region.MovesWithin (.replace start stop bytes.length)
          (document.performAll (earlier ++ [.splice start stop bytes])).text.length := by
  have records : document.Records document.text := by rw [Records, settled]
  constructor
  · obtain rfl | ⟨earlier, last, rfl⟩ := List.eq_nil_or_concat splices
    · exact absurd rfl nonempty
    · rw [List.concat_eq_append] at *
      obtain ⟨earlierRecords, lastAdmits⟩ :=
        records.before areSplices admits (List.prefix_refl _)
      rw [performAll_concat]
      exact earlierRecords.exists_region (areSplices last (by simp)) lastAdmits
  · intro earlier start stop bytes begins region pendingEq
    obtain ⟨earlierRecords, spliceAdmits⟩ := records.before areSplices admits begins
    obtain ⟨⟨ordered, inside⟩, before, after⟩ := spliceAdmits
    rw [performAll_concat]
    exact Region.movesWithin_of_replaces (earlierRecords.replaces pendingEq).stop_le
      (Edit.replaces_replace ordered inside before after)

/-- Four splices whose ranges lie around the end of the region: a first one, one
in front of the end, one across it and one behind it. -/
theorem pending_performAll_splices_overlapping :
    let document := fresh (.ofLanguage .c) [0x61, 0x62, 0x63, 0x64, 0x65, 0x66, 0x67, 0x68]
    let splices : List Action := [.splice 3 5 [0x78, 0x78, 0x78], .splice 1 2 [],
      .splice 4 6 [0x79], .splice 6 6 [0x7A]]
    (document.performAll splices).cache.pending = some ⟨1, 7, 0⟩ ∧
      Region.Replaces ⟨1, 7, 0⟩ document.text (document.performAll splices).text ∧
      Region.MovesWithin ⟨3, 6, 1⟩ (.replace 1 2 0) 8 := by
  intro document splices
  have settled : document.cache.pending = none := rfl
  have recorded : (document.performAll splices).cache.pending = some ⟨1, 7, 0⟩ := by
    decide +kernel
  have earlier : (document.performAll [.splice 3 5 [0x78, 0x78, 0x78]]).cache.pending =
      some ⟨3, 6, 1⟩ := by decide +kernel
  have nonempty : splices ≠ [] := List.cons_ne_nil _ _
  obtain ⟨⟨region, pendingEq, replaces⟩, moves⟩ := pending_performAll_splices settled nonempty
    (by simp [splices, Action.IsSplice])
    (by simp [splices, document, AdmitsAll, Admits, perform, fresh, Bytes.Addressable,
      Offset.longest])
  obtain rfl : region = ⟨1, 7, 0⟩ := Option.some.inj (pendingEq.symm.trans recorded)
  exact ⟨recorded, replaces, moves [.splice 3 5 [0x78, 0x78, 0x78]] 1 2 [] ⟨_, rfl⟩ _ earlier⟩

end Document

end Highlight
