import Highlight.Cache.Basic
import Highlight.Proofs.Token.Tiling
import Mathlib.Data.List.TakeWhile

/-!
# What a partial update is made of

A partial update keeps old tokens, lexes fresh ones from a restart offset, and
returns to old ones where a fresh token leads back to them.  This file says once
what each of the three parts is; both the tiling of the cache and its agreement
with the lexer are read off from here.
-/

namespace Highlight.TokenCache

open Highlight.Token

/-! ## Where lexing starts again -/

/-- The offset at which a partial update starts to lex: the start of the first
old token that ends at the line or behind its start. -/
def restartOffset (tokens : List Token) (lineStart : Nat) : Nat :=
  ((tokens.dropWhile fun token => decide (token.stop < lineStart)).head?.map Token.start).getD
    lineStart

theorem lineStart_le (text : Bytes) (offset : Nat) : Bytes.lineStart text offset ≤ offset :=
  Nat.sub_le _ _

variable {tokens : List Token} {length lineStart : Nat}

/-- The tokens kept in front end before the line. -/
theorem stop_lt_of_mem_takeWhile {token : Token}
    (member : token ∈ tokens.takeWhile fun token => decide (token.stop < lineStart)) :
    token.stop < lineStart := by
  simpa using List.mem_takeWhile_imp member

/-- The restart offset separates the tokens that are kept in front of it from
the old ones behind it, provided that the line starts within the old text. -/
theorem tiles_restartOffset (tiles : Tiles 0 tokens length) (lineLe : lineStart ≤ length) :
    Tiles 0 (tokens.takeWhile fun token => decide (token.stop < lineStart))
        (restartOffset tokens lineStart) ∧
      Tiles (restartOffset tokens lineStart)
        (tokens.dropWhile fun token => decide (token.stop < lineStart)) length := by
  have splitEq := List.takeWhile_append_dropWhile
    (p := fun token : Token => decide (token.stop < lineStart)) (l := tokens)
  rw [← splitEq] at tiles
  obtain ⟨middle, keptTiles, oldTiles⟩ := (tiles_append_iff _ _ _ _).mp tiles
  have middleEq : restartOffset tokens lineStart = middle := by
    unfold restartOffset
    cases oldEq : tokens.dropWhile fun token => decide (token.stop < lineStart) with
    | cons token rest =>
        rw [oldEq] at oldTiles
        exact oldTiles.1
    | nil =>
        -- All old tokens end before the line, which starts within the old text:
        -- there are none.
        rw [oldEq] at oldTiles
        have middleIsLength : middle = length := oldTiles
        simp only [List.head?_nil, Option.map_none, Option.getD_none]
        rcases keptTiles.stop_eq_or_exists with middleZero | ⟨token, member, stopEq⟩
        · omega
        · have := stop_lt_of_mem_takeWhile member
          omega
  rw [middleEq]
  exact ⟨keptTiles, oldTiles⟩

/-- Lexing starts again no later than the line does. -/
theorem restartOffset_le (tiles : Tiles 0 tokens length) (lineLe : lineStart ≤ length) :
    restartOffset tokens lineStart ≤ lineStart := by
  rcases (tiles_restartOffset tiles lineLe).1.stop_eq_or_exists with
    restartZero | ⟨token, member, stopEq⟩
  · omega
  · have := stop_lt_of_mem_takeWhile member
    omega

theorem restartOffset_cons_of_lt {token : Token} (early : token.stop < lineStart)
    (rest : List Token) :
    restartOffset (token :: rest) lineStart = restartOffset rest lineStart := by
  rw [restartOffset, List.dropWhile_cons_of_pos (by simpa using early)]
  rfl

theorem restartOffset_cons_of_le {token : Token} (late : lineStart ≤ token.stop)
    (rest : List Token) : restartOffset (token :: rest) lineStart = token.start := by
  rw [restartOffset, List.dropWhile_cons_of_neg (by simpa using late)]
  rfl

/-! ## Where old tokens are taken up again -/

/-- A fresh token leads back to old tokens if it ends behind the region with a
newline, and the first of them starts where it ends once it is moved. -/
theorem resume?_eq_some {text : Bytes} {region : Region} {old kept : List Token} {fresh : Token}
    (resumed : resume? text region old fresh = some kept) :
    region.stop < fresh.stop ∧ text[fresh.stop - 1]? = some Byte.newline ∧
      ∃ passed first others, old = passed ++ first :: others ∧ kept = first :: others ∧
        (first.start : Int) + region.delta = fresh.stop := by
  simp only [resume?, Option.ite_none_right_eq_some, Option.ite_none_left_eq_some,
    Option.some.injEq, List.isEmpty_iff] at resumed
  obtain ⟨⟨behind, newline⟩, nonempty, keptEq⟩ := resumed
  refine ⟨behind, newline, ?_⟩
  obtain ⟨first, others, oldEq⟩ := List.exists_cons_of_ne_nil nonempty
  refine ⟨old.takeWhile fun token => decide ((token.start : Int) ≠ fresh.stop - region.delta),
    first, others, ?_, keptEq.symm.trans oldEq, ?_⟩
  · rw [← oldEq]
    exact List.takeWhile_append_dropWhile.symm
  · have stops := List.head?_dropWhile_not
      (fun token : Token => decide ((token.start : Int) ≠ fresh.stop - region.delta)) old
    rw [oldEq] at stops
    simp only [List.head?_cons, decide_eq_false_iff_not, ne_eq, not_not] at stops
    omega

/-- Either no fresh token leads back to old ones and all are kept, or they are
kept up to one that does. -/
theorem resync_cases (text : Bytes) (region : Region) (old fresh : List Token) :
    resync text region old fresh = (fresh, []) ∨
      ∃ front last others kept, fresh = front ++ last :: others ∧
        resume? text region old last = some kept ∧
        resync text region old fresh = (front ++ [last], kept) := by
  induction fresh with
  | nil => exact Or.inl rfl
  | cons token rest ih =>
      cases resumed : resume? text region old token with
      | some kept =>
          right
          exact ⟨[], token, rest, kept, rfl, resumed, by simp [resync, resumed]⟩
      | none =>
          rcases ih with allKept | ⟨front, last, others, kept, restEq, lastResumed, resyncEq⟩
          · left
            simp [resync, resumed, allKept]
          · right
            refine ⟨token :: front, last, others, kept, by rw [restEq]; rfl, lastResumed, ?_⟩
            simp [resync, resumed, resyncEq]

/-! ## The parts together -/

/-- Moving the tokens that are taken up again by nothing leaves them as they
are, so a partial update always moves them. -/
theorem relex_eq (cache : TokenCache) (text : Bytes) (region : Region) :
    let lineStart := Bytes.lineStart text (min region.start text.length)
    let parts := resync text region
      (cache.tokens.dropWhile fun token => decide (token.stop < lineStart))
      (cache.lexer.tokensFrom text (restartOffset cache.tokens lineStart))
    cache.relex text region =
      (cache.tokens.takeWhile fun token => decide (token.stop < lineStart)) ++
        (parts.1 ++ parts.2.map (·.shift region.delta)) := by
  simp only [relex, restartOffset, List.append_assoc, List.append_cancel_left_eq]
  split
  · rename_i deltaEq
    rw [deltaEq, List.map_congr_left (fun token _ => shift_zero token), List.map_id']
  · rfl

end Highlight.TokenCache
