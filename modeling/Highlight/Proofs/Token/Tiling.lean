import Highlight.Token

/-!
# Token lists that tile a range

A token list tiles a range of offsets when its tokens lie side by side from one
end of the range to the other and none of them is empty.  This is the shape
that every lexer produces and that every token cache keeps.
-/

namespace Highlight.Token

/-- The tokens lie side by side from `start` to `stop`, and none is empty. -/
def Tiles : (start : Nat) → List Token → (stop : Nat) → Prop
  | start, [], stop => start = stop
  | start, token :: rest, stop =>
      token.start = start ∧ token.start < token.stop ∧ Tiles token.stop rest stop

instance Tiles.decidable : (start : Nat) → (tokens : List Token) → (stop : Nat) →
    Decidable (Tiles start tokens stop)
  | start, [], stop => inferInstanceAs (Decidable (start = stop))
  | start, token :: rest, stop =>
      have := Tiles.decidable token.stop rest stop
      inferInstanceAs (Decidable (token.start = start ∧ token.start < token.stop ∧
        Tiles token.stop rest stop))

@[simp]
theorem tiles_nil_iff (start stop : Nat) : Tiles start [] stop ↔ start = stop :=
  Iff.rfl

@[simp]
theorem tiles_cons_iff (start stop : Nat) (token : Token) (rest : List Token) :
    Tiles start (token :: rest) stop ↔
      token.start = start ∧ token.start < token.stop ∧ Tiles token.stop rest stop :=
  Iff.rfl

namespace Tiles

variable {start stop : Nat} {tokens : List Token}

/-- A tiled range does not run backwards. -/
theorem le (tiles : Tiles start tokens stop) : start ≤ stop := by
  induction tokens generalizing start with
  | nil => exact Nat.le_of_eq tiles
  | cons token rest ih =>
      obtain ⟨startEq, nonempty, restTiles⟩ := tiles
      have := ih restTiles
      omega

/-- Every token of a tiling lies within the range and covers something. -/
theorem bounds_of_mem (tiles : Tiles start tokens stop) {token : Token}
    (member : token ∈ tokens) :
    start ≤ token.start ∧ token.start < token.stop ∧ token.stop ≤ stop := by
  induction tokens generalizing start with
  | nil => simp at member
  | cons first rest ih =>
      obtain ⟨startEq, nonempty, restTiles⟩ := tiles
      rcases List.mem_cons.mp member with rfl | member
      · exact ⟨Nat.le_of_eq startEq.symm, nonempty, restTiles.le⟩
      · have := ih restTiles member
        omega

/-- A tiling ends where it starts, or with one of its tokens. -/
theorem stop_eq_or_exists (tiles : Tiles start tokens stop) :
    stop = start ∨ ∃ token ∈ tokens, token.stop = stop := by
  induction tokens generalizing start with
  | nil => exact Or.inl (Eq.symm tiles)
  | cons token rest ih =>
      right
      rcases ih tiles.2.2 with stopEq | ⟨last, member, stopEq⟩
      · exact ⟨token, List.mem_cons_self, stopEq.symm⟩
      · exact ⟨last, List.mem_cons_of_mem token member, stopEq⟩

/-- An offset of a tiled range splits the tiling, or falls within one of the
tokens. -/
theorem splits_or_covers (tiles : Tiles start tokens stop) {offset : Nat}
    (startLe : start ≤ offset) (leStop : offset ≤ stop) :
    (∃ left right, tokens = left ++ right ∧ Tiles start left offset ∧ Tiles offset right stop) ∨
      ∃ token ∈ tokens, token.start < offset ∧ offset < token.stop := by
  rcases Nat.eq_or_lt_of_le startLe with rfl | startLt
  · exact Or.inl ⟨[], tokens, rfl, rfl, tiles⟩
  induction tokens generalizing start with
  | nil =>
      have : start = stop := tiles
      omega
  | cons token rest ih =>
      obtain ⟨rfl, nonempty, restTiles⟩ := tiles
      rcases Nat.lt_trichotomy offset token.stop with covered | rfl | behind
      · exact Or.inr ⟨token, List.mem_cons_self, startLt, covered⟩
      · exact Or.inl ⟨[token], rest, rfl, ⟨rfl, nonempty, rfl⟩, restTiles⟩
      · rcases ih restTiles (Nat.le_of_lt behind) behind with
          ⟨left, right, rfl, leftTiles, rightTiles⟩ | ⟨other, member, covers⟩
        · exact Or.inl ⟨token :: left, right, rfl, ⟨rfl, nonempty, leftTiles⟩, rightTiles⟩
        · exact Or.inr ⟨other, List.mem_cons_of_mem token member, covers⟩

/-- The starts of a tiling strictly increase. -/
theorem pairwise_start (tiles : Tiles start tokens stop) :
    tokens.Pairwise fun left right => left.start < right.start := by
  induction tokens generalizing start with
  | nil => exact List.Pairwise.nil
  | cons token rest ih =>
      obtain ⟨_, nonempty, restTiles⟩ := tiles
      refine List.pairwise_cons.mpr ⟨?_, ih restTiles⟩
      intro other member
      have := restTiles.bounds_of_mem member
      omega

/-- The ends of a tiling strictly increase. -/
theorem pairwise_stop (tiles : Tiles start tokens stop) :
    tokens.Pairwise fun left right => left.stop < right.stop := by
  induction tokens generalizing start with
  | nil => exact List.Pairwise.nil
  | cons token rest ih =>
      obtain ⟨_, _, restTiles⟩ := tiles
      refine List.pairwise_cons.mpr ⟨?_, ih restTiles⟩
      intro other member
      have := restTiles.bounds_of_mem member
      omega

end Tiles

/-- A tiling splits where its list does. -/
theorem tiles_append_iff (start stop : Nat) (left right : List Token) :
    Tiles start (left ++ right) stop ↔
      ∃ middle, Tiles start left middle ∧ Tiles middle right stop := by
  induction left generalizing start with
  | nil => simp
  | cons token left ih =>
      simp only [List.cons_append, tiles_cons_iff, ih]
      constructor
      · rintro ⟨startEq, nonempty, middle, leftTiles, rightTiles⟩
        exact ⟨middle, ⟨startEq, nonempty, leftTiles⟩, rightTiles⟩
      · rintro ⟨middle, ⟨startEq, nonempty, leftTiles⟩, rightTiles⟩
        exact ⟨startEq, nonempty, middle, leftTiles, rightTiles⟩

/-! ## Moved tilings -/

/-- An offset that stays non-negative is moved without wrapping. -/
theorem moveOffset_of_eq {offset moved : Nat} {delta : Int}
    (movedEq : (offset : Int) + delta = moved) : moveOffset offset delta = moved := by
  simp [moveOffset, movedEq]

/-- A move to the right adds to both offsets. -/
theorem shift_natCast (token : Token) (count : Nat) :
    token.shift count = ⟨token.kind, count + token.start, count + token.stop⟩ := by
  have movedEq (offset : Nat) : (offset : Int) + count = (count + offset : Nat) := by omega
  rw [shift, moveOffset_of_eq (movedEq _), moveOffset_of_eq (movedEq _)]

/-- A move by nothing changes nothing. -/
theorem shift_zero (token : Token) : token.shift 0 = token := by
  simp [shift, moveOffset]

/-- Moving a tiling to a range that starts at `moved` gives a tiling of that
range. -/
theorem Tiles.shift {start stop moved : Nat} {delta : Int} {tokens : List Token}
    (tiles : Tiles start tokens stop) (movedEq : (start : Int) + delta = moved) :
    Tiles moved (tokens.map (·.shift delta)) (moved + (stop - start)) := by
  induction tokens generalizing start moved with
  | nil =>
      have : start = stop := tiles
      simp [this]
  | cons token rest ih =>
      obtain ⟨rfl, nonempty, restTiles⟩ := tiles
      have stopEq : (token.stop : Int) + delta = (moved + (token.stop - token.start) : Nat) := by
        omega
      have restShifted := ih restTiles stopEq
      have := restTiles.le
      have endEq : moved + (token.stop - token.start) + (stop - token.stop) =
          moved + (stop - token.start) := by
        omega
      rw [endEq] at restShifted
      simp only [List.map_cons, tiles_cons_iff, Token.shift, moveOffset_of_eq movedEq,
        moveOffset_of_eq stopEq]
      exact ⟨trivial, by omega, restShifted⟩

end Highlight.Token
