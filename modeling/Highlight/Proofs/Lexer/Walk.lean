import Highlight.Proofs.Lexer.Progress
import Highlight.Proofs.Token.Tiling

/-!
# Lexing by offset

A lexer walks over a text with the bytes behind and ahead of it.  Seen from the
outside it goes from offset to offset: the token at an offset, then the tokens
from its end on.  `Lexer.tokensFrom_of_lt` is that equation, and
`Lexer.tokensFrom_induction` the induction it gives.
-/

namespace Highlight.Lexer

open Highlight.Token

/-- The lexeme at an offset of a text. -/
def lexemeAt (lexer : Lexer) (text : Bytes) (start : Nat) : Lexeme :=
  lexer.lexeme (text.take start).reverse (text.drop start)

/-- The token at an offset of a text. -/
def tokenAt (lexer : Lexer) (text : Bytes) (start : Nat) : Token where
  kind := (lexer.lexemeAt text start).kind
  start := start
  stop := start + (lexer.lexemeAt text start).length

variable (lexer : Lexer) {text : Bytes} {start : Nat}

theorem lexemeAt_fits (inside : start < text.length) :
    (lexer.lexemeAt text start).Fits (text.drop start) := by
  apply lexeme_fits
  intro empty
  have := List.drop_eq_nil_iff.mp empty
  omega

theorem lt_stop_tokenAt (inside : start < text.length) :
    start < (lexer.tokenAt text start).stop := by
  have := (lexer.lexemeAt_fits inside).length_pos
  simp only [tokenAt]
  omega

theorem stop_tokenAt_le (inside : start < text.length) :
    (lexer.tokenAt text start).stop ≤ text.length := by
  have := (lexer.lexemeAt_fits inside).length_le
  simp only [List.length_drop] at this
  simp only [tokenAt]
  omega

/-! ## The tokens of a text, offset by offset -/

/-- Pending bytes are walked over without a token. -/
theorem walk_eq_walk_drop (before rest : Bytes) (offset pending : Nat) :
    lexer.walk before rest offset pending =
      lexer.walk ((rest.take pending).reverse ++ before) (rest.drop pending)
        (offset + pending) 0 := by
  induction rest generalizing before offset pending with
  | nil => simp [walk]
  | cons b rest ih =>
      cases pending with
      | zero => simp
      | succ pending =>
          rw [walk, ih]
          simp [Nat.add_assoc, Nat.add_comm 1]

theorem tokensFrom_of_le (outside : text.length ≤ start) : lexer.tokensFrom text start = [] := by
  rw [tokensFrom, List.drop_eq_nil_of_le outside, walk]

/-- The tokens from an offset on: the token there, and the tokens from its end
on. -/
theorem tokensFrom_of_lt (inside : start < text.length) :
    lexer.tokensFrom text start =
      lexer.tokenAt text start :: lexer.tokensFrom text (lexer.tokenAt text start).stop := by
  have lengthPos := (lexer.lexemeAt_fits inside).length_pos
  cases restEq : text.drop start with
  | nil =>
      have := List.drop_eq_nil_iff.mp restEq
      omega
  | cons b rest =>
      have nonempty : b :: rest ≠ [] := List.cons_ne_nil b rest
      have foundEq :
          lexer.lexemeAt text start = lexer.next (text.take start).reverse (b :: rest) := by
        rw [next_eq_lexeme lexer _ nonempty, lexemeAt, restEq]
      rw [tokensFrom, restEq, walk, walk_eq_walk_drop, ← foundEq]
      obtain ⟨pending, pendingEq⟩ : ∃ n, (lexer.lexemeAt text start).length = n + 1 :=
        ⟨_, (Nat.succ_pred_eq_of_pos lengthPos).symm⟩
      have tailEq : rest.drop pending = text.drop (start + (pending + 1)) := by
        rw [← List.drop_drop, restEq, List.drop_succ_cons]
      have beforeEq : (rest.take pending).reverse ++ b :: (text.take start).reverse =
          (text.take (start + (pending + 1))).reverse := by
        rw [List.take_add, restEq, List.take_succ_cons]
        simp
      simp only [tokenAt, tokensFrom, pendingEq, Nat.add_sub_cancel, tailEq, beforeEq]
      simp [Nat.add_assoc, Nat.add_comm 1]

/-- To show something of the tokens from every offset on, show it of no tokens
at the end of the text, and of a token in front of the tokens from its end
on. -/
theorem tokensFrom_induction {motive : Nat → List Token → Prop}
    (finish : ∀ start, text.length ≤ start → motive start [])
    (step : ∀ start, start < text.length →
      motive (lexer.tokenAt text start).stop
        (lexer.tokensFrom text (lexer.tokenAt text start).stop) →
      motive start (lexer.tokenAt text start ::
        lexer.tokensFrom text (lexer.tokenAt text start).stop))
    (start : Nat) : motive start (lexer.tokensFrom text start) := by
  by_cases inside : start < text.length
  · rw [lexer.tokensFrom_of_lt inside]
    have := lexer.lt_stop_tokenAt inside
    exact step start inside (tokensFrom_induction finish step _)
  · rw [lexer.tokensFrom_of_le (Nat.le_of_not_lt inside)]
    exact finish start (Nat.le_of_not_lt inside)
termination_by text.length - start

/-- The tokens from an offset on lie side by side from there to the end of the
text. -/
theorem tokensFrom_tiles_of_le (inside : start ≤ text.length) :
    Tiles start (lexer.tokensFrom text start) text.length := by
  refine lexer.tokensFrom_induction (motive := fun start tokens =>
    start ≤ text.length → Tiles start tokens text.length) ?_ ?_ start inside
  · intro start outside inside
    exact Nat.le_antisymm inside outside
  · intro start inside ih _
    exact ⟨rfl, lexer.lt_stop_tokenAt inside, ih (lexer.stop_tokenAt_le inside)⟩

/-- Lexing may be taken up again at the start of any token. -/
theorem eq_tokensFrom_of_append {left right : List Token} {token : Token}
    (tokensEq : lexer.tokensFrom text start = left ++ token :: right) :
    token :: right = lexer.tokensFrom text token.start := by
  refine lexer.tokensFrom_induction (motive := fun start tokens => ∀ left,
    tokens = left ++ token :: right → token :: right = lexer.tokensFrom text token.start)
    ?_ ?_ start left tokensEq
  · intro start _ left tokensEq
    simp at tokensEq
  · intro start inside ih left tokensEq
    cases left with
    | nil =>
        obtain ⟨rfl, rfl⟩ := List.cons.inj tokensEq
        exact (lexer.tokensFrom_of_lt inside).symm
    | cons first left => exact ih left (List.cons.inj tokensEq).2

/-- Every token of a text is the one that lexing finds at its start. -/
theorem eq_tokenAt_of_mem {token : Token} (member : token ∈ lexer.tokensFrom text start) :
    token.start < text.length ∧ token = lexer.tokenAt text token.start := by
  obtain ⟨left, right, tokensEq⟩ := List.append_of_mem member
  have restEq := lexer.eq_tokensFrom_of_append tokensEq
  by_cases inside : token.start < text.length
  · rw [lexer.tokensFrom_of_lt inside] at restEq
    exact ⟨inside, (List.cons.inj restEq).1⟩
  · rw [lexer.tokensFrom_of_le (Nat.le_of_not_lt inside)] at restEq
    cases restEq

/-- The first token of a text is the lexeme at its front. -/
theorem tokenize_eq_cons (nonempty : text ≠ []) :
    lexer.tokenize text = ⟨(lexer.lexeme [] text).kind, 0, (lexer.lexeme [] text).length⟩ ::
      lexer.tokensFrom text (lexer.lexeme [] text).length := by
  rw [tokenize, tokensFrom_of_lt lexer (List.length_pos_iff.mpr nonempty), tokenAt, lexemeAt,
    List.take_zero, List.reverse_nil, List.drop_zero, Nat.zero_add]

/-- The first of the tokens from an offset on starts there. -/
theorem start_eq_of_tokensFrom_eq_cons {token : Token} {right : List Token}
    (tokensEq : lexer.tokensFrom text start = token :: right) : token.start = start := by
  by_cases inside : start < text.length
  · rw [lexer.tokensFrom_of_lt inside] at tokensEq
    rw [← (List.cons.inj tokensEq).1]
    rfl
  · rw [lexer.tokensFrom_of_le (Nat.le_of_not_lt inside)] at tokensEq
    cases tokensEq

/-- The bytes of the token at a place are those of its lexeme. -/
theorem slice_tokenAt : (lexer.tokenAt text start).slice text =
    (text.drop start).take (lexer.lexemeAt text start).length := by
  rw [Token.slice, Token.length, tokenAt, Nat.add_sub_cancel_left]

/-- Behind a token lexing goes on where the token ends. -/
theorem eq_tokensFrom_stop_of_append {left right : List Token} {token : Token}
    (tokensEq : lexer.tokensFrom text start = left ++ token :: right) :
    right = lexer.tokensFrom text token.stop := by
  have restEq := lexer.eq_tokensFrom_of_append tokensEq
  by_cases inside : token.start < text.length
  · rw [lexer.tokensFrom_of_lt inside] at restEq
    obtain ⟨tokenEq, rightEq⟩ := List.cons.inj restEq
    rwa [← tokenEq] at rightEq
  · rw [lexer.tokensFrom_of_le (Nat.le_of_not_lt inside)] at restEq
    cases restEq

/-- Behind tokens that lie side by side lexing goes on where they end. -/
theorem eq_tokensFrom_of_tiles {left right : List Token} {place : Nat}
    (tokensEq : lexer.tokensFrom text start = left ++ right) (tiles : Tiles start left place) :
    right = lexer.tokensFrom text place := by
  induction left generalizing start with
  | nil =>
      obtain rfl : start = place := tiles
      exact tokensEq.symm
  | cons token left ih =>
      obtain ⟨_, _, tiles⟩ := tiles
      have first : lexer.tokensFrom text start = [] ++ token :: (left ++ right) := tokensEq
      exact ih (lexer.eq_tokensFrom_stop_of_append first).symm tiles

end Highlight.Lexer
