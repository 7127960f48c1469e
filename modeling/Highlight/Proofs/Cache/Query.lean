import Highlight.Proofs.Cache.Access

/-!
# Queries of the cache

A query finds its tokens by halving the list, which only works on a list in order.  The
tokens of a cache tile the text of its last update, whatever the recorded edits say, and
in a tiling the starts and the ends of the tokens increase.  So a query answers what
going through all tokens would answer, and no slice it takes is out of range.

`queryKind?` and `queryTokens?` are the queries with checked access, like the update in
`Highlight.Proofs.Cache.Access`.
-/

namespace Highlight.TokenCache

open Highlight.Token

/-- The kind of the token at an offset, with checked access. -/
def queryKind? (cache : TokenCache) (offset : Nat) : Option (Option TokenKind) := do
  let index ← partitionPoint? (fun token => decide (token.stop ≤ offset)) cache.tokens
  return (cache.tokens[index]?.filter fun token => decide (token.start ≤ offset)).map Token.kind

/-- The tokens that overlap a range, with checked access. -/
def queryTokens? (cache : TokenCache) (start stop : Nat) : Option (List Token) := do
  let first ← partitionPoint? (fun token => decide (token.stop ≤ start)) cache.tokens
  let last ← partitionPoint? (fun token => decide (token.start < stop)) cache.tokens
  Cursor.slice? cache.tokens first (max last first)

/-! ## Searches in a tiling -/

section Tiling

variable {tokens : List Token} {start stop : Nat}

/-- The tokens that end at an offset or before it all come first. -/
theorem pairwise_stop_le (tiles : Tiles start tokens stop) (offset : Nat) :
    tokens.Pairwise fun left right =>
      decide (right.stop ≤ offset) = true → decide (left.stop ≤ offset) = true := by
  refine tiles.pairwise_stop.imp ?_
  intro left right increases early
  exact decide_eq_true (Nat.le_trans (Nat.le_of_lt increases) (of_decide_eq_true early))

/-- The tokens that start before an offset all come first. -/
theorem pairwise_start_lt (tiles : Tiles start tokens stop) (offset : Nat) :
    tokens.Pairwise fun left right =>
      decide (right.start < offset) = true → decide (left.start < offset) = true := by
  refine tiles.pairwise_start.imp ?_
  intro left right increases early
  exact decide_eq_true (Nat.lt_trans increases (of_decide_eq_true early))

/-- Within a tiled range one token covers an offset, and it is the first that ends behind
it. -/
theorem exists_covering (tiles : Tiles start tokens stop) {offset : Nat}
    (startLe : start ≤ offset) (inside : offset < stop) :
    ∃ token, (tokens.dropWhile fun token => decide (token.stop ≤ offset)).head? = some token ∧
      token.start ≤ offset ∧
      tokens.filter (fun token => decide (token.start ≤ offset ∧ offset < token.stop)) =
        [token] := by
  induction tokens generalizing start with
  | nil =>
      have empty : start = stop := tiles
      omega
  | cons token rest ih =>
      obtain ⟨rfl, _, restTiles⟩ := tiles
      by_cases early : token.stop ≤ offset
      · obtain ⟨covering, headEq, covers, filterEq⟩ := ih restTiles early
        refine ⟨covering, ?_, covers, ?_⟩
        · rwa [List.dropWhile_cons_of_pos (by simpa using early)]
        · rw [List.filter_cons_of_neg, filterEq]
          simp only [decide_eq_true_eq]
          omega
      · refine ⟨token, ?_, startLe, ?_⟩
        · rw [List.dropWhile_cons_of_neg (by simpa using early), List.head?_cons]
        · -- The tokens behind it start where it ends, or later.
          have none : rest.filter
              (fun token => decide (token.start ≤ offset ∧ offset < token.stop)) = [] := by
            refine List.filter_eq_nil_iff.mpr ?_
            intro other member
            have bounds := restTiles.bounds_of_mem member
            simp only [decide_eq_true_eq]
            omega
          rw [List.filter_cons_of_pos, none]
          simp only [decide_eq_true_eq]
          omega

end Tiling

/-! ## The queries -/

variable {cache : TokenCache}

theorem kindAt?_eq_some (tiles : Tiles 0 cache.tokens cache.length) {offset : Nat}
    (inside : offset < cache.length) :
    ∃ token, cache.tokens.filter
        (fun token => decide (token.start ≤ offset ∧ offset < token.stop)) = [token] ∧
      cache.kindAt? offset = some token.kind := by
  obtain ⟨token, headEq, covers, filterEq⟩ := exists_covering tiles (Nat.zero_le offset) inside
  refine ⟨token, filterEq, ?_⟩
  rw [kindAt?, headEq, Option.filter_some_pos (by simpa using covers), Option.map_some]

theorem kindAt?_eq_none_iff (tiles : Tiles 0 cache.tokens cache.length) (offset : Nat) :
    cache.kindAt? offset = none ↔ cache.length ≤ offset := by
  constructor
  · intro missing
    by_contra inside
    obtain ⟨token, _, found⟩ := kindAt?_eq_some tiles (Nat.lt_of_not_le inside)
    cases missing.symm.trans found
  · intro outside
    have allEarly : (cache.tokens.dropWhile fun token => decide (token.stop ≤ offset)) = [] := by
      refine List.dropWhile_eq_nil_iff.mpr ?_
      intro token member
      exact decide_eq_true (Nat.le_trans (tiles.bounds_of_mem member).2.2 outside)
    rw [kindAt?, allEarly]
    rfl

theorem queryKind?_eq (tiles : Tiles 0 cache.tokens cache.length) (offset : Nat) :
    cache.queryKind? offset = some (cache.kindAt? offset) := by
  rw [queryKind?, partitionPoint?_eq (pairwise_stop_le tiles offset), kindAt?,
    List.dropWhile_eq_drop, List.head?_drop]
  rfl

/-- The two searches leave the tokens between them. -/
theorem tokensIn_eq (tiles : Tiles 0 cache.tokens cache.length) (start stop : Nat) :
    cache.tokensIn start stop =
      cache.tokens.filter fun token => decide (start < token.stop ∧ token.start < stop) := by
  have frontEq : cache.tokens.take
      (cache.tokens.takeWhile fun token => decide (token.start < stop)).length =
        cache.tokens.filter fun token => decide (token.start < stop) := by
    rw [← List.prefix_iff_eq_take.mp (List.takeWhile_prefix _)]
    exact List.takeWhile_eq_filter (pairwise_start_lt tiles stop)
  rw [tokensIn, List.drop_take_eq_dropWhile, frontEq,
    List.dropWhile_eq_filter ((pairwise_stop_le tiles start).sublist List.filter_sublist),
    List.filter_filter]
  congr 1
  funext token
  simp only [Bool.decide_and, ← decide_not, Nat.not_le]

theorem queryTokens?_eq (tiles : Tiles 0 cache.tokens cache.length) (start stop : Nat) :
    cache.queryTokens? start stop = some (cache.tokensIn start stop) := by
  rw [queryTokens?, partitionPoint?_eq (pairwise_stop_le tiles start),
    partitionPoint?_eq (pairwise_start_lt tiles stop), tokensIn]
  have firstLe := (List.takeWhile_prefix (l := cache.tokens)
    fun token => decide (token.stop ≤ start)).length_le
  have lastLe := (List.takeWhile_prefix (l := cache.tokens)
    fun token => decide (token.start < stop)).length_le
  generalize (cache.tokens.takeWhile fun token => decide (token.stop ≤ start)).length = first at *
  generalize (cache.tokens.takeWhile fun token => decide (token.start < stop)).length = last at *
  change Cursor.slice? cache.tokens first (max last first) = _
  rw [Cursor.slice?_of_le (Nat.le_max_right _ _) (Nat.max_le.mpr ⟨lastLe, firstLe⟩)]
  rcases Nat.le_total first last with ordered | reversed
  · rw [Nat.max_eq_left ordered]
  · -- A range that runs backwards, or none at all, leaves nothing between the searches.
    have nothing (count : Nat) (countLe : count ≤ first) :
        (cache.tokens.take count).drop first = [] := by
      refine List.drop_eq_nil_of_le ?_
      exact Nat.le_trans (List.length_take_le _ _) countLe
    rw [Nat.max_eq_right reversed, nothing first (Nat.le_refl _), nothing last reversed]

/-! ## The last text -/

/-- The text that a call brings the tokens in line with, if it is an update. -/
def Call.text? : Call → Option Bytes
  | .edit _ => none
  | .touch _ _ => none
  | .update text _ => some text

/-- The text of the last update, which is empty before the first one. -/
def lastText (calls : List Call) : Bytes :=
  ((calls.filterMap Call.text?).getLast?).getD []

theorem length_update (cache : TokenCache) (text : Bytes) (force : Bool) :
    (cache.update text force).length = text.length := by
  rcases cache.update_cases text force with
    ⟨_, _, lengthEq, updateEq⟩ | updateEq | ⟨region, _, _, _, updateEq⟩
  · rw [updateEq, lengthEq]
  · rw [updateEq]
    rfl
  · rw [updateEq]
    rfl

/-- Only an update changes the length that a cache remembers. -/
theorem length_perform (cache : TokenCache) (call : Call) :
    (cache.perform call).length = (call.text?.map List.length).getD cache.length := by
  cases call with
  | edit edit => rfl
  | touch start stop => rfl
  | update text force => exact cache.length_update text force

theorem length_performAll (lexer : Lexer) (calls : List Call) :
    ((new lexer).performAll calls).length = (lastText calls).length := by
  induction calls using List.reverseRecOn with
  | nil => rfl
  | append_singleton calls call ih =>
      rw [performAll, List.foldl_append, List.foldl_cons, List.foldl_nil, length_perform, lastText,
        List.filterMap_append]
      cases textEq : call.text? with
      | none =>
          rw [List.filterMap_cons_none textEq, List.filterMap_nil, List.append_nil]
          exact ih
      | some text =>
          rw [List.filterMap_cons_some textEq, List.filterMap_nil, List.getLast?_concat]
          rfl

/-! ## Runs -/

/-- In every cache that edits, true or not, and updates lead to, the queries are exact,
as long as no change in length wraps around.  At each offset of the last text there is one
token, and its kind is found; behind the text there is none.  The tokens found for a range,
be it empty or backwards, are those that end behind its start and start before its end.  No
search and no slice of a query fails. -/
theorem performAll_queries (lexer : Lexer) {calls : List Call}
    (admits : (new lexer).AdmitsAll calls) :
    let cache := (new lexer).performAll calls
    (∀ offset < (lastText calls).length, ∃ token,
      cache.tokens.filter (fun token => decide (token.start ≤ offset ∧ offset < token.stop)) =
          [token] ∧
        cache.kindAt? offset = some token.kind) ∧
    (∀ offset, cache.kindAt? offset = none ↔ (lastText calls).length ≤ offset) ∧
    (∀ start stop, cache.tokensIn start stop =
      cache.tokens.filter fun token => decide (start < token.stop ∧ token.start < stop)) ∧
    (∀ offset, cache.queryKind? offset = some (cache.kindAt? offset)) ∧
    ∀ start stop, cache.queryTokens? start stop = some (cache.tokensIn start stop) := by
  intro cache
  have tiles : Tiles 0 cache.tokens cache.length :=
    ((consistent_new lexer).performAll admits).1.tiles
  rw [← length_performAll lexer calls]
  exact ⟨fun _ => kindAt?_eq_some tiles, kindAt?_eq_none_iff tiles, tokensIn_eq tiles,
    queryKind?_eq tiles, queryTokens?_eq tiles⟩

/-- After edits that were not made, the last offset of the text has a token and the next
one has none. -/
theorem performAll_queries_untrue :
    let calls : List Call := [.update [0x61, 0x0A, 0x62] false, .edit ⟨1, 3, 6⟩, .touch 7 2,
      .edit ⟨0, 4, 2⟩, .update [0x2F, 0x61, 0x0A, 0x62] false, .edit ⟨0, 0, 5⟩]
    let cache := (new (.ofLanguage .cpp)).performAll calls
    (∃ token,
      cache.tokens.filter (fun token => decide (token.start ≤ 3 ∧ 3 < token.stop)) = [token] ∧
        cache.kindAt? 3 = some token.kind) ∧
      cache.kindAt? 4 = none ∧ cache.queryTokens? 3 1 = some (cache.tokensIn 3 1) := by
  intro calls cache
  have admits : (new (.ofLanguage .cpp)).AdmitsAll calls := by decide +kernel
  obtain ⟨covered, outside, _, _, sliced⟩ := performAll_queries (.ofLanguage .cpp) admits
  exact ⟨covered 3 (by decide), (outside 4).mpr (by decide), sliced 3 1⟩

/-- An edit whose change in length wraps around leaves bytes of the last text without a
token, and no kind is found for them. -/
theorem performAll_queries_wrapped :
    let calls : List Call := [.update [0x61, 0x62, 0x63] false, .edit ⟨6, Offset.largest, 6⟩,
      .update [0x61, 0x62, 0x63, 0x64, 0x65, 0x0A, 0x67, 0x68, 0x69, 0x6A] false]
    (∀ call ∈ calls, call.IsOrdered) ∧ 4 < (lastText calls).length ∧
      ((new (.ofLanguage .c)).performAll calls).kindAt? 4 = none := by
  intro calls
  refine ⟨?_, by decide, by decide +kernel⟩
  simp [calls, Call.IsOrdered, Offset.largest]

end Highlight.TokenCache
