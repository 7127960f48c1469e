import Highlight.Proofs.Cache.Region
import Highlight.Proofs.Cache.Relex
import Highlight.Proofs.Lexer.Walk

/-!
# The cache keeps a tiling

The tokens of a cache tile the text of its last update, whether or not the
recorded edits were made.  Untrue edits make a partial update keep tokens that
have nothing to do with the text; the check of the length and the order of the
recorded region are enough for them to fit in without a gap.

This rests on the recorded change in length being the sum of what the edits say.
Where it is another number with the same last 64 bits, the check of the length
can hold for a region that is not in order.
-/

namespace Highlight.TokenCache

open Highlight.Token

/-! ## What an update does -/

/-- The cache with new tokens for a text. -/
def refreshed (cache : TokenCache) (text : Bytes) (tokens : List Token) : TokenCache where
  lexer := cache.lexer
  tokens := tokens
  length := text.length
  lexed := true
  pending := none

/-- An update leaves the cache alone, lexes the whole text, or lexes it around
the recorded region. -/
theorem update_cases (cache : TokenCache) (text : Bytes) (force : Bool) :
    (cache.lexed = true ∧ cache.pending = none ∧ cache.length = text.length ∧
        cache.update text force = cache) ∨
      cache.update text force = cache.refreshed text (cache.lexer.tokenize text) ∨
      ∃ region, cache.lexed = true ∧ cache.pending = some region ∧
        cache.accountsFor text region = true ∧
        cache.update text force = cache.refreshed text (cache.relex text region) := by
  unfold update
  by_cases whole : (!cache.lexed || force) = true
  · rw [if_pos whole]
    exact Or.inr (Or.inl rfl)
  · have lexed : cache.lexed = true := by simp_all
    rw [if_neg whole]
    cases cache.pending with
    | none =>
        by_cases sameLength : cache.length = text.length
        · left
          exact ⟨lexed, rfl, sameLength, if_pos sameLength⟩
        · right; left
          exact if_neg sameLength
    | some region =>
        by_cases accounts : cache.accountsFor text region = true
        · right; right
          exact ⟨region, lexed, rfl, accounts, if_pos accounts⟩
        · right; left
          exact if_neg accounts

/-! ## Partial updates -/

/-- What a cache keeps between two updates: its tokens tile the text they were
made for, and the recorded region is in order. -/
structure Consistent (cache : TokenCache) : Prop where
  tiles : Tiles 0 cache.tokens cache.length
  length_le : cache.length ≤ Offset.longest
  ordered : ∀ region, cache.pending = some region → region.Ordered
  fits : ∀ region, cache.pending = some region → Offset.Fits region.delta

variable {cache : TokenCache} {text : Bytes} {region : Region}

theorem Consistent.accountsFor_iff (consistent : cache.Consistent)
    (pendingEq : cache.pending = some region) (addressable : Bytes.Addressable text) :
    cache.accountsFor text region = true ↔
      (cache.length : Int) + region.delta = text.length ∧ region.stop ≤ text.length := by
  rw [accountsFor, Bool.and_eq_true, decide_eq_true_iff, decide_eq_true_iff,
    Offset.signed_add_eq_iff consistent.length_le addressable (consistent.fits region pendingEq)]

/-- The line in which the region starts begins within the old text. -/
theorem lineStart_le_length (ordered : region.Ordered) (addressable : Bytes.Addressable text)
    (lengthEq : (cache.length : Int) + region.delta = text.length)
    (inside : region.stop ≤ text.length) :
    Bytes.lineStart text (min region.start text.length) ≤ cache.length := by
  have lineLe := lineStart_le text (min region.start text.length)
  by_cases longer : 0 < region.delta
  · have startLe := ordered.start_add_delta_le addressable inside longer
    omega
  · omega

/-- The old tokens that are taken up again tile the rest of the old text, from
the place that the fresh token leads to. -/
theorem exists_tiles_of_resume? {old kept : List Token} {start length : Nat} {fresh : Token}
    (oldTiles : Tiles start old length) (resumed : resume? text region old fresh = some kept) :
    ∃ first : Nat, (first : Int) + region.delta = fresh.stop ∧ Tiles first kept length := by
  obtain ⟨_, _, passed, first, others, rfl, rfl, startEq⟩ := resume?_eq_some resumed
  obtain ⟨middle, _, keptTiles⟩ := (tiles_append_iff _ _ _ _).mp oldTiles
  refine ⟨first.start, startEq, rfl, keptTiles.2⟩

/-- Fresh tokens and moved old ones lie side by side up to the end of the new
text. -/
theorem tiles_resync {old fresh : List Token} {start restart length : Nat}
    (oldTiles : Tiles start old length) (freshTiles : Tiles restart fresh text.length)
    (lengthEq : (length : Int) + region.delta = text.length) :
    Tiles restart ((resync text region old fresh).1 ++
      (resync text region old fresh).2.map (·.shift region.delta)) text.length := by
  rcases resync_cases text region old fresh with
    allFresh | ⟨front, last, others, kept, rfl, resumed, resyncEq⟩
  · rw [allFresh]
    simpa using freshTiles
  · obtain ⟨first, firstEq, keptTiles⟩ := exists_tiles_of_resume? oldTiles resumed
    have keptShifted := keptTiles.shift firstEq
    have firstLe := keptTiles.le
    have endEq : last.stop + (length - first) = text.length := by omega
    rw [endEq] at keptShifted
    obtain ⟨middle, frontTiles, lastEq, nonempty, _⟩ := (tiles_append_iff _ _ _ _).mp freshTiles
    rw [resyncEq, List.append_assoc]
    exact (tiles_append_iff _ _ _ _).mpr ⟨middle, frontTiles, lastEq, nonempty, keptShifted⟩

/-- A partial update gives a tiling of the new text. -/
theorem tiles_relex (tiles : Tiles 0 cache.tokens cache.length) (ordered : region.Ordered)
    (addressable : Bytes.Addressable text)
    (lengthEq : (cache.length : Int) + region.delta = text.length)
    (inside : region.stop ≤ text.length) :
    Tiles 0 (cache.relex text region) text.length := by
  have lineLe := lineStart_le_length ordered addressable lengthEq inside
  have textLe := lineStart_le text (min region.start text.length)
  obtain ⟨frontTiles, oldTiles⟩ := tiles_restartOffset tiles lineLe
  have restartLe := restartOffset_le tiles lineLe
  have freshTiles := cache.lexer.tokensFrom_tiles_of_le
    (Nat.le_trans restartLe (Nat.le_trans textLe (Nat.min_le_right _ _)))
  rw [relex_eq]
  apply (tiles_append_iff _ _ _ _).mpr
  exact ⟨_, frontTiles, tiles_resync oldTiles freshTiles lengthEq⟩

/-! ## Runs -/

theorem consistent_new (lexer : Lexer) : (new lexer).Consistent where
  tiles := rfl
  length_le := Nat.zero_le _
  ordered := by
    intro region pendingEq
    cases pendingEq
  fits := by
    intro region pendingEq
    cases pendingEq

/-- The recorded change in length. -/
def recorded (cache : TokenCache) : Int :=
  (cache.pending.map Region.delta).getD 0

theorem Consistent.fits_recorded (consistent : cache.Consistent) : Offset.Fits cache.recorded := by
  cases pendingEq : cache.pending with
  | none =>
      rw [recorded, pendingEq]
      exact Offset.fits_of_le_longest (Nat.zero_le _)
  | some region =>
      rw [recorded, pendingEq]
      exact consistent.fits region pendingEq

theorem Consistent.edit (consistent : cache.Consistent) {edit : Edit} (forward : edit.Forward)
    (fits : Offset.Fits (cache.recorded + edit.delta)) : (cache.edit edit).Consistent := by
  constructor
  · exact consistent.tiles
  · exact consistent.length_le
  · intro region pendingEq
    simp only [TokenCache.edit, Option.some.injEq] at pendingEq
    subst pendingEq
    cases previous : cache.pending with
    | none => exact Region.ordered_ofEdit forward
    | some region =>
        rw [recorded, previous] at fits
        exact (consistent.ordered region previous).merge forward fits
  · intro region pendingEq
    simp only [TokenCache.edit, Option.some.injEq] at pendingEq
    subst pendingEq
    cases previous : cache.pending with
    | none => exact Offset.fits_signed _
    | some region => exact Offset.fits_signed _

/-- A range that is only touched changes no length. -/
theorem Consistent.touch (consistent : cache.Consistent) (start stop : Nat) :
    (cache.touch start stop).Consistent := by
  refine consistent.edit (Edit.forward_touch start stop) ?_
  rw [Edit.delta_touch, Int.add_zero]
  exact consistent.fits_recorded

theorem Consistent.tiles_update (consistent : cache.Consistent) {text : Bytes}
    (addressable : Bytes.Addressable text) (force : Bool) :
    Tiles 0 (cache.update text force).tokens text.length := by
  rcases cache.update_cases text force with
    ⟨_, _, lengthEq, updateEq⟩ | updateEq | ⟨region, _, pendingEq, accounts, updateEq⟩
  · rw [updateEq, ← lengthEq]
    exact consistent.tiles
  · rw [updateEq]
    exact cache.lexer.tokensFrom_tiles_of_le (Nat.zero_le _)
  · rw [updateEq]
    obtain ⟨lengthEq, inside⟩ := (consistent.accountsFor_iff pendingEq addressable).mp accounts
    exact tiles_relex consistent.tiles (consistent.ordered region pendingEq) addressable
      lengthEq inside

/-- New tokens that tile their text leave nothing recorded. -/
theorem consistent_refreshed {text : Bytes} {tokens : List Token}
    (addressable : Bytes.Addressable text) (tiles : Tiles 0 tokens text.length) :
    (cache.refreshed text tokens).Consistent where
  tiles := tiles
  length_le := addressable
  ordered := by
    intro region pendingEq
    cases pendingEq
  fits := by
    intro region pendingEq
    cases pendingEq

theorem Consistent.update (consistent : cache.Consistent) {text : Bytes}
    (addressable : Bytes.Addressable text) (force : Bool) :
    (cache.update text force).Consistent := by
  have tiles := consistent.tiles_update addressable force
  rcases cache.update_cases text force with
    ⟨_, _, _, updateEq⟩ | updateEq | ⟨region, _, _, _, updateEq⟩
  · rw [updateEq]
    exact consistent
  · rw [updateEq] at tiles ⊢
    exact consistent_refreshed addressable tiles
  · rw [updateEq] at tiles ⊢
    exact consistent_refreshed addressable tiles

end Highlight.TokenCache
