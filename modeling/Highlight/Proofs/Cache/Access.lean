import Highlight.Proofs.Cache.Tiling
import Highlight.Proofs.Lexer.Access

/-!
# Updates with checked access

The update of this file addresses tokens and bytes by index.  It fails as soon
as an index or a slice is not there, a search meets a list that is not in order,
the difference of two offsets is no signed word, or a moved token does not lie
within the text.  On every cache that keeps a tiling it never fails, and does
what the update of the library does.
-/

namespace Highlight.TokenCache

open Highlight.Token

/-! ## Searches that depend on order -/

section Searches

variable {α : Type}

/-- The number of items at the front of which `p` holds, found by halving the
list.  It fails where `p` holds of a later item again. -/
def partitionPoint? (p : α → Bool) (items : List α) : Option Nat :=
  let first := (items.takeWhile p).length
  if (items.drop first).all (!p ·) then some first else none

/-- The index of the item with a given key, found by halving the list.  It fails
where the keys do not strictly increase. -/
def binarySearch? (key : α → Nat) (target : Nat) (items : List α) : Option (Option Nat) :=
  if items.Pairwise fun left right => key left < key right then
    some (items.findIdx? fun item => key item == target)
  else none

end Searches

/-! ## The update -/

/-- The token moved by `delta` bytes, unless it would not lie in `0`, …,
`limit`. -/
def shift? (limit : Nat) (delta : Int) (token : Token) : Option Token :=
  if 0 ≤ (token.start : Int) + delta ∧ (token.stop : Int) + delta ≤ limit then
    some { token with
      start := ((token.start : Int) + delta).toNat
      stop := ((token.stop : Int) + delta).toNat }
  else none

/-- The index of the old token that a fresh token leads to.  It fails if the end
of the fresh token had a place before the edits that is no signed word. -/
def resumeIndex? (text : Bytes) (region : Region) (old : List Token) (fresh : Token) :
    Option (Option Nat) :=
  if fresh.stop ≤ region.stop then some none
  else do
    let last ← if fresh.stop = 0 then none else text[fresh.stop - 1]?
    let oldPlace := (fresh.stop : Int) - region.delta
    if last ≠ Byte.newline then return none
    else if ¬ Offset.Fits oldPlace then none
    else if 0 ≤ oldPlace then binarySearch? Token.start oldPlace.toNat old
    else return none

/-- The fresh tokens up to the first that leads back to an old one, and the
index of the old one. -/
def resyncIndex? (text : Bytes) (region : Region) (old : List Token) :
    List Token → Option (List Token × Option Nat)
  | [] => some ([], none)
  | fresh :: rest => do
      match ← resumeIndex? text region old fresh with
      | some index => return ([fresh], some index)
      | none =>
          let (others, index) ← resyncIndex? text region old rest
          return (fresh :: others, index)

/-- Puts fresh tokens in the place of the old ones from index `first` on, up to
the one that lexing has led back to, and moves the tokens behind them. -/
def splice? (limit : Nat) (delta : Int) (tokens : List Token) (first : Nat) (fresh : List Token)
    (index : Option Nat) : Option (List Token) := do
  let resume := (index.map (first + ·)).getD tokens.length
  let front ← Cursor.take? tokens first
  let _ ← Cursor.slice? tokens first resume
  let kept ← Cursor.drop? tokens resume
  let spliced := front ++ fresh ++ kept
  if delta = 0 then return spliced
  else
    let keptFrom := first + fresh.length
    let untouched ← Cursor.take? spliced keptFrom
    let moved ← (← Cursor.drop? spliced keptFrom).mapM (shift? limit delta)
    return untouched ++ moved

/-- The tokens of a text that differs from the one before only in a region. -/
def relex? (cache : TokenCache) (text : Bytes) (region : Region) : Option (List Token) := do
  let place := min region.start text.length
  let before ← Cursor.take? text place
  let lineStart := place - (before.reverse.takeWhile (· != Byte.newline)).length
  let first ← partitionPoint? (fun token => decide (token.stop < lineStart)) cache.tokens
  let restart := (cache.tokens[first]?.map Token.start).getD lineStart
  let old ← Cursor.drop? cache.tokens first
  let fresh ← Cursor.tokensFrom? cache.lexer text restart
  let (fresh, index) ← resyncIndex? text region old fresh
  splice? text.length region.delta cache.tokens first fresh index

/-- Brings the tokens in line with a text. -/
def update? (cache : TokenCache) (text : Bytes) (force : Bool) : Option TokenCache :=
  let whole := (Cursor.tokensFrom? cache.lexer text 0).map (cache.refreshed text)
  if !cache.lexed || force then whole
  else
    match cache.pending with
    | none => if cache.length = text.length then some cache else whole
    | some region =>
        if cache.accountsFor text region then (cache.relex? text region).map (cache.refreshed text)
        else whole

/-! ## The searches find what they look for -/

/-- Where the items with a property all come first, the search finds how many they are. -/
theorem partitionPoint?_eq {α : Type} {p : α → Bool} {items : List α}
    (first : items.Pairwise fun left right => p right = true → p left = true) :
    partitionPoint? p items = some (items.takeWhile p).length := by
  refine if_pos ?_
  rw [← List.dropWhile_eq_drop, List.dropWhile_eq_filter first, List.all_eq_true]
  exact fun item member => (List.mem_filter.mp member).2

/-! ## The update never fails -/

variable {text : Bytes} {region : Region} {old : List Token}

/-- A fresh token leads to the old tokens from the index on that is found for
it. -/
theorem resumeIndex?_eq (region : Region) {fresh : Token} {start length : Nat}
    (oldTiles : Tiles start old length) (inside : fresh.stop ≤ text.length)
    (fits : Offset.Fits ((fresh.stop : Int) - region.delta)) :
    ∃ index, resumeIndex? text region old fresh = some index ∧
      resume? text region old fresh = index.map old.drop ∧ ∀ i ∈ index, i ≤ old.length := by
  by_cases behind : fresh.stop ≤ region.stop
  · refine ⟨none, if_pos behind, ?_, by simp⟩
    exact if_neg (fun both => Nat.not_lt.mpr behind both.1)
  · have lastEq : text[fresh.stop - 1]? = some text[fresh.stop - 1] := List.getElem?_eq_getElem _
    have behindLt := Nat.lt_of_not_le behind
    simp only [resumeIndex?, if_neg behind, if_neg (show fresh.stop ≠ 0 by omega), lastEq,
      Option.bind_eq_bind, Option.bind_some, resume?, behindLt, true_and, Option.some.injEq]
    by_cases newline : text[fresh.stop - 1] = Byte.newline
    · by_cases place : 0 ≤ (fresh.stop : Int) - region.delta
      · refine ⟨old.findIdx? fun token => token.start == ((fresh.stop : Int) - region.delta).toNat,
          ?_, ?_, ?_⟩
        · rw [if_neg (not_not.mpr newline), if_neg (not_not.mpr fits), if_pos place]
          exact if_pos oldTiles.pairwise_start
        · -- The old place is an offset, so both searches compare the same.
          have sameTest : (fun token : Token =>
              !(token.start == ((fresh.stop : Int) - region.delta).toNat)) =
                fun token => decide ((token.start : Int) ≠ fresh.stop - region.delta) := by
            funext token
            rw [Bool.eq_iff_iff]
            simp only [Bool.not_eq_true', beq_eq_false_iff_ne, decide_eq_true_eq]
            omega
          rw [if_pos newline, List.findIdx?_map_drop, sameTest]
        · intro i found
          exact Nat.le_of_lt (List.findIdx?_eq_some_iff_getElem.mp found).1
      · -- No old token starts at a negative offset.
        refine ⟨none, ?_, ?_, by simp⟩
        · rw [if_neg (not_not.mpr newline), if_neg (not_not.mpr fits), if_neg place]
          rfl
        · have allDropped : (old.dropWhile fun token =>
              decide ((token.start : Int) ≠ fresh.stop - region.delta)) = [] := by
            refine List.dropWhile_eq_nil_iff.mpr fun token _ => ?_
            simp only [decide_eq_true_eq]
            omega
          rw [if_pos newline, allDropped]
          rfl
    · exact ⟨none, if_pos newline, if_neg newline, by simp⟩

/-- Where a region accounts for the lengths, a place in the new text leads to none
behind the old text. -/
theorem fits_sub_delta {length place : Nat} (lengthLe : length ≤ Offset.longest)
    (addressable : Bytes.Addressable text)
    (lengthEq : (length : Int) + region.delta = text.length) (inside : place ≤ text.length) :
    Offset.Fits ((place : Int) - region.delta) := by
  simp only [Bytes.Addressable, Offset.Fits, Offset.longest] at *
  constructor
  · omega
  · omega

theorem resyncIndex?_eq (region : Region) {fresh : List Token} {start restart length : Nat}
    (oldTiles : Tiles start old length) (freshTiles : Tiles restart fresh text.length)
    (fits : ∀ place ≤ text.length, Offset.Fits ((place : Int) - region.delta)) :
    ∃ index, resyncIndex? text region old fresh = some ((resync text region old fresh).1, index) ∧
      (resync text region old fresh).2 = old.drop (index.getD old.length) ∧
      ∀ i ∈ index, i ≤ old.length := by
  induction fresh generalizing restart with
  | nil => exact ⟨none, rfl, by simp [resync], by simp⟩
  | cons token rest ih =>
      obtain ⟨_, _, restTiles⟩ := freshTiles
      obtain ⟨index, indexEq, resumeEq, indexLe⟩ :=
        resumeIndex?_eq region oldTiles restTiles.le (fits token.stop restTiles.le)
      cases index with
      | some i =>
          refine ⟨some i, ?_, ?_, indexLe⟩
          · simp [resyncIndex?, resync, indexEq, resumeEq]
          · simp [resync, resumeEq]
      | none =>
          obtain ⟨index, resyncEq, keptEq, indexLe⟩ := ih restTiles
          refine ⟨index, ?_, ?_, indexLe⟩
          · simp [resyncIndex?, resync, indexEq, resumeEq, resyncEq]
          · simp [resync, resumeEq, keptEq]

/-- A token that stays within the text is moved without wrapping. -/
theorem shift?_eq {token : Token} {limit : Nat} {delta : Int}
    (startMoved : 0 ≤ (token.start : Int) + delta) (ordered : token.start < token.stop)
    (stopMoved : (token.stop : Int) + delta ≤ limit) :
    shift? limit delta token = some (token.shift delta) := by
  have startEq : moveOffset token.start delta = ((token.start : Int) + delta).toNat :=
    moveOffset_of_eq (by omega)
  have stopEq : moveOffset token.stop delta = ((token.stop : Int) + delta).toNat :=
    moveOffset_of_eq (by omega)
  rw [shift?, if_pos ⟨startMoved, stopMoved⟩, Token.shift, startEq, stopEq]

theorem mapM_shift?_eq {kept : List Token} {first stop limit : Nat} {delta : Int}
    (keptTiles : Tiles first kept stop) (firstMoved : 0 ≤ (first : Int) + delta)
    (stopMoved : (stop : Int) + delta ≤ limit) :
    kept.mapM (shift? limit delta) = some (kept.map (·.shift delta)) := by
  induction kept generalizing first with
  | nil => rfl
  | cons token rest ih =>
      obtain ⟨rfl, nonempty, restTiles⟩ := keptTiles
      have restLe := restTiles.le
      rw [List.mapM_cons, shift?_eq firstMoved nonempty (by omega), ih restTiles (by omega)]
      rfl

/-- The old tokens that are taken up again stay within the text when they are
moved. -/
theorem mapM_shift?_resync {old : List Token} {start length : Nat}
    (oldTiles : Tiles start old length)
    (lengthEq : (length : Int) + region.delta = text.length) (fresh : List Token) :
    (resync text region old fresh).2.mapM (shift? text.length region.delta) =
      some ((resync text region old fresh).2.map (·.shift region.delta)) := by
  rcases resync_cases text region old fresh with
    allFresh | ⟨front, last, others, kept, rfl, resumed, resyncEq⟩
  · rw [allFresh]
    rfl
  · obtain ⟨first, firstEq, keptTiles⟩ := exists_tiles_of_resume? oldTiles resumed
    rw [resyncEq]
    exact mapM_shift?_eq keptTiles (by omega) (by omega)

/-- The three parts of the token list lie where the indices say. -/
theorem splice?_eq {limit : Nat} {delta : Int} (front old fresh : List Token)
    {kept : List Token} {index : Option Nat} (indexLe : ∀ i ∈ index, i ≤ old.length)
    (keptEq : kept = old.drop (index.getD old.length))
    (movedEq : kept.mapM (shift? limit delta) = some (kept.map (·.shift delta))) :
    splice? limit delta (front ++ old) front.length fresh index =
      some (front ++ (fresh ++ kept.map (·.shift delta))) := by
  obtain ⟨count, countLe, resumeEq, keptEq⟩ : ∃ count, count ≤ old.length ∧
      (index.map (front.length + ·)).getD (front ++ old).length = front.length + count ∧
      kept = old.drop count := by
    cases index with
    | none => exact ⟨old.length, Nat.le_refl _, List.length_append, keptEq⟩
    | some i => exact ⟨i, indexLe i rfl, rfl, keptEq⟩
  have frontLe : front.length ≤ (front ++ old).length := by
    rw [List.length_append]
    exact Nat.le_add_right _ _
  have resumeLe : front.length + count ≤ (front ++ old).length := by
    rw [List.length_append]
    exact Nat.add_le_add_left countLe _
  have keptDrop : (front ++ old).drop (front.length + count) = kept := by
    rw [keptEq, ← List.drop_drop, List.drop_left]
  have keptFromLe : (front ++ fresh).length ≤ (front ++ fresh ++ kept).length := by
    rw [List.length_append, List.length_append, List.length_append]
    exact Nat.le_add_right _ _
  simp only [splice?, resumeEq, Cursor.take?_of_le frontLe,
    Cursor.slice?_of_le (Nat.le_add_right front.length count) resumeLe,
    Cursor.drop?_of_le resumeLe, keptDrop, List.take_left, ← List.length_append,
    Cursor.take?_of_le keptFromLe, Cursor.drop?_of_le keptFromLe, List.drop_left, movedEq,
    Option.bind_eq_bind, Option.bind_some]
  split
  · rename_i unmoved
    rw [unmoved, List.map_congr_left (fun token _ => shift_zero token), List.map_id',
      List.append_assoc]
    rfl
  · rw [List.append_assoc]
    rfl

theorem relex?_eq {cache : TokenCache} (tiles : Tiles 0 cache.tokens cache.length)
    (lengthLe : cache.length ≤ Offset.longest) (ordered : region.Ordered)
    (addressable : Bytes.Addressable text)
    (lengthEq : (cache.length : Int) + region.delta = text.length)
    (inside : region.stop ≤ text.length) :
    cache.relex? text region = some (cache.relex text region) := by
  have lineLe := lineStart_le_length ordered addressable lengthEq inside
  have textLe := lineStart_le text (min region.start text.length)
  have placeLe : min region.start text.length ≤ text.length := Nat.min_le_right _ _
  rw [relex_eq]
  simp only [relex?, Cursor.take?_of_le placeLe, Option.bind_eq_bind, Option.bind_some]
  rw [show min region.start text.length - _ = Bytes.lineStart text (min region.start text.length)
    from rfl]
  generalize Bytes.lineStart text (min region.start text.length) = lineStart at *
  obtain ⟨frontTiles, oldTiles⟩ := tiles_restartOffset tiles lineLe
  have freshTiles := cache.lexer.tokensFrom_tiles_of_le
    (Nat.le_trans (restartOffset_le tiles lineLe) (Nat.le_trans textLe placeLe))
  have firstLe := (List.takeWhile_prefix (l := cache.tokens)
    fun token => decide (token.stop < lineStart)).length_le
  have oldEq := List.dropWhile_eq_drop (fun token => decide (token.stop < lineStart)) cache.tokens
  have headEq : (cache.tokens[(cache.tokens.takeWhile fun token =>
      decide (token.stop < lineStart)).length]?.map Token.start).getD lineStart =
        restartOffset cache.tokens lineStart := by
    rw [restartOffset, oldEq, List.head?_drop]
  obtain ⟨index, resyncEq, keptEq, indexLe⟩ := resyncIndex?_eq region oldTiles freshTiles
    fun _ => fits_sub_delta lengthLe addressable lengthEq
  have movedEq := mapM_shift?_resync oldTiles lengthEq
    (cache.lexer.tokensFrom text (restartOffset cache.tokens lineStart))
  have splicedEq (fresh : List Token) := splice?_eq
    (cache.tokens.takeWhile fun token => decide (token.stop < lineStart)) _ fresh
    indexLe keptEq movedEq
  rw [List.takeWhile_append_dropWhile] at splicedEq
  have earlyFirst : cache.tokens.Pairwise fun left right =>
      decide (right.stop < lineStart) = true → decide (left.stop < lineStart) = true := by
    refine tiles.pairwise_stop.imp ?_
    intro left right increases early
    exact decide_eq_true (Nat.lt_trans increases (of_decide_eq_true early))
  simp only [partitionPoint?_eq earlyFirst, Option.bind_some, Cursor.drop?_of_le firstLe, ← oldEq,
    headEq, Cursor.tokensFrom?_eq, resyncEq]
  exact splicedEq _

theorem update?_eq {cache : TokenCache} (consistent : cache.Consistent) {text : Bytes}
    (addressable : Bytes.Addressable text) (force : Bool) :
    cache.update? text force = some (cache.update text force) := by
  unfold update? update
  rw [Cursor.tokensFrom?_eq]
  split
  · rfl
  · cases pendingEq : cache.pending with
    | none =>
        simp only
        split
        · rfl
        · rfl
    | some region =>
        simp only
        split
        · rename_i accounts
          obtain ⟨lengthEq, inside⟩ :=
            (consistent.accountsFor_iff pendingEq addressable).mp accounts
          rw [relex?_eq consistent.tiles consistent.length_le
            (consistent.ordered region pendingEq) addressable lengthEq inside]
          rfl
        · rfl

/-! ## Runs -/

/-- What is asked of a cache. -/
inductive Call where
  | edit (edit : Edit)
  | touch (start stop : Nat)
  | update (text : Bytes) (force : Bool)

/-- The cache after a call. -/
def perform (cache : TokenCache) : Call → TokenCache
  | .edit edit => cache.edit edit
  | .touch start stop => cache.touch start stop
  | .update text force => cache.update text force

/-- The cache after a call, with checked access. -/
def perform? (cache : TokenCache) : Call → Option TokenCache
  | .edit edit => some (cache.edit edit)
  | .touch start stop => some (cache.touch start stop)
  | .update text force => cache.update? text force

/-- The cache after some calls. -/
def performAll (cache : TokenCache) (calls : List Call) : TokenCache :=
  calls.foldl perform cache

/-- The cache after some calls, with checked access. -/
def performAll? (cache : TokenCache) (calls : List Call) : Option TokenCache :=
  calls.foldlM perform? cache

/-- An edit says that a range which does not run backwards gives way to another
one.  It need not have been made.  Nothing is asked of the other calls. -/
def Call.IsOrdered : Call → Prop
  | .edit change => change.start ≤ change.oldStop ∧ change.start ≤ change.newStop
  | .touch _ _ => True
  | .update _ _ => True

/-- The call is ordered, and the change in length that an edit speaks of is a
signed word, alone and added to what is recorded already.  As every text in
memory, that of an update is addressable. -/
def Admits (cache : TokenCache) : Call → Prop
  | .edit change =>
      (change.start ≤ change.oldStop ∧ change.start ≤ change.newStop) ∧
        Offset.Fits ((change.newStop : Int) - change.oldStop) ∧
        Offset.Fits (cache.recorded + ((change.newStop : Int) - change.oldStop))
  | .touch _ _ => True
  | .update text _ => Bytes.Addressable text

/-- Each of some calls is admitted when its turn comes. -/
def AdmitsAll (cache : TokenCache) : List Call → Prop
  | [] => True
  | call :: rest => cache.Admits call ∧ (cache.perform call).AdmitsAll rest

instance Admits.decidable (cache : TokenCache) : (call : Call) → Decidable (cache.Admits call)
  | .edit _ => inferInstanceAs (Decidable ((_ ∧ _) ∧ _ ∧ _))
  | .touch _ _ => inferInstanceAs (Decidable True)
  | .update text _ => inferInstanceAs (Decidable (Bytes.Addressable text))

instance AdmitsAll.decidable (cache : TokenCache) : (calls : List Call) →
    Decidable (cache.AdmitsAll calls)
  | [] => inferInstanceAs (Decidable True)
  | call :: rest =>
      have := AdmitsAll.decidable (cache.perform call) rest
      inferInstanceAs (Decidable (cache.Admits call ∧ (cache.perform call).AdmitsAll rest))

theorem admitsAll_append (cache : TokenCache) (earlier later : List Call) :
    cache.AdmitsAll (earlier ++ later) ↔
      cache.AdmitsAll earlier ∧ (cache.performAll earlier).AdmitsAll later := by
  induction earlier generalizing cache with
  | nil => exact (and_iff_right trivial).symm
  | cons call rest ih =>
      rw [List.cons_append, AdmitsAll, AdmitsAll, ih, and_assoc]
      rfl

theorem Consistent.perform {cache : TokenCache} (consistent : cache.Consistent) {call : Call}
    (admits : cache.Admits call) : (cache.perform call).Consistent := by
  cases call with
  | edit edit =>
      obtain ⟨⟨ordered, _⟩, fits, sumFits⟩ := admits
      have exact := Edit.delta_of_fits fits
      rw [← exact] at sumFits
      exact consistent.edit ⟨exact, Or.inl ordered⟩ sumFits
  | touch start stop => exact consistent.touch start stop
  | update text force => exact consistent.update admits force

theorem Consistent.perform?_eq {cache : TokenCache} (consistent : cache.Consistent)
    {call : Call} (admits : cache.Admits call) :
    cache.perform? call = some (cache.perform call) := by
  cases call with
  | edit edit => rfl
  | touch start stop => rfl
  | update text force => exact update?_eq consistent admits force

/-- Along a run the cache stays consistent, and no access fails. -/
theorem Consistent.performAll {cache : TokenCache} (consistent : cache.Consistent)
    {calls : List Call} (admits : cache.AdmitsAll calls) :
    (cache.performAll calls).Consistent ∧
      cache.performAll? calls = some (cache.performAll calls) := by
  induction calls generalizing cache with
  | nil => exact ⟨consistent, rfl⟩
  | cons call calls ih =>
      obtain ⟨callAdmits, restAdmits⟩ := admits
      obtain ⟨restConsistent, restEq⟩ := ih (consistent.perform callAdmits) restAdmits
      constructor
      · exact restConsistent
      · rw [performAll?, List.foldlM_cons, consistent.perform?_eq callAdmits]
        exact restEq

/-- Whatever the recorded edits say, as long as no change in length wraps around,
no access of a run fails, and after each of its updates the tokens tile the text
of that update. -/
theorem performAll_tiles (lexer : Lexer) {calls : List Call}
    (admits : (new lexer).AdmitsAll calls) :
    (new lexer).performAll? calls = some ((new lexer).performAll calls) ∧
      ∀ earlier text force, earlier ++ [.update text force] <+: calls →
        Tiles 0 ((new lexer).performAll (earlier ++ [.update text force])).tokens
          text.length := by
  constructor
  · exact ((consistent_new lexer).performAll admits).2
  · rintro earlier text force ⟨later, rfl⟩
    rw [List.append_assoc, admitsAll_append] at admits
    obtain ⟨earlierAdmits, addressable, _⟩ := admits
    have consistent := ((consistent_new lexer).performAll earlierAdmits).1
    rw [performAll, List.foldl_append]
    exact consistent.tiles_update addressable force

/-- Two bytes are said to have given way to five and a range to have changed,
while a byte was put in front. -/
theorem performAll_tiles_untrue :
    Tiles 0 ((new (.ofLanguage .cpp)).performAll
      [.update [0x61, 0x0A, 0x62] false, .edit ⟨1, 3, 6⟩, .touch 7 2, .edit ⟨0, 4, 2⟩,
        .update [0x2F, 0x61, 0x0A, 0x62] false]).tokens 4 := by
  have admits : (new (.ofLanguage .cpp)).AdmitsAll
      [.update [0x61, 0x0A, 0x62] false, .edit ⟨1, 3, 6⟩, .touch 7 2, .edit ⟨0, 4, 2⟩,
        .update [0x2F, 0x61, 0x0A, 0x62] false] := by
    decide +kernel
  exact (performAll_tiles (.ofLanguage .cpp) admits).2
    [.update [0x61, 0x0A, 0x62] false, .edit ⟨1, 3, 6⟩, .touch 7 2, .edit ⟨0, 4, 2⟩]
    [0x2F, 0x61, 0x0A, 0x62] false (List.prefix_refl _)

/-- The largest word is cast to minus one, so an edit that takes it for the end
of the replaced range is recorded as one that adds seven bytes.  Its region lies
behind the old text, but as the length is accounted for only the region is lexed
anew, and no token is made for the bytes in front of it. -/
theorem performAll_tiles_wrapped :
    let calls : List Call := [.update [0x61, 0x62, 0x63] false, .edit ⟨6, Offset.largest, 6⟩,
      .update [0x61, 0x62, 0x63, 0x64, 0x65, 0x0A, 0x67, 0x68, 0x69, 0x6A] false]
    let cache := (new (.ofLanguage .c)).performAll calls
    (∀ call ∈ calls, call.IsOrdered) ∧
      cache.tokens = [⟨.identifier, 0, 3⟩, ⟨.identifier, 6, 10⟩] ∧ ¬ Tiles 0 cache.tokens 10 := by
  intro calls cache
  have tokensEq : cache.tokens = [⟨.identifier, 0, 3⟩, ⟨.identifier, 6, 10⟩] := by decide +kernel
  refine ⟨?_, tokensEq, ?_⟩
  · simp [calls, Call.IsOrdered, Offset.largest]
  · rw [tokensEq]
    decide

end Highlight.TokenCache
