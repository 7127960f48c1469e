import Highlight.Proofs.Cache.Region
import Highlight.Proofs.Cache.Relex
import Highlight.Proofs.Cache.Tiling
import Highlight.Proofs.Lexer.Lookahead
import Highlight.Proofs.Lexer.Lookback

/-!
# Updates agree with lexing anew

If the recorded edits were made, an update gives the tokens of the text, and not
only tokens that tile it.  The tokens in front of the line of the first change
are the same because no rule looks ahead beyond the end of its line, and those
behind the last change because none looks back beyond the start of its line.
-/

namespace Highlight

open Highlight.Token

/-! ## Line starts -/

namespace Bytes

/-- A line starts at the start of the text or after a newline. -/
theorem lineStart_eq_zero_or_newline {text : Bytes} {offset : Nat}
    (inside : offset ≤ text.length) :
    lineStart text offset = 0 ∨
      ∃ last, lineStart text offset = last + 1 ∧ text[last]? = some Byte.newline := by
  have splitEq := List.takeWhile_append_dropWhile (p := (· != Byte.newline))
    (l := (text.take offset).reverse)
  have lengthEq := congrArg List.length splitEq
  rw [List.length_append, List.length_reverse, List.length_take_of_le inside] at lengthEq
  unfold lineStart
  generalize (text.take offset).reverse.takeWhile (· != Byte.newline) = line at *
  cases behindEq : (text.take offset).reverse.dropWhile (· != Byte.newline) with
  | nil =>
      left
      simp only [behindEq, List.length_nil] at lengthEq
      omega
  | cons b earlier =>
      right
      have isNewline : b = Byte.newline := by
        have stops := List.head?_dropWhile_not (· != Byte.newline) (text.take offset).reverse
        rw [behindEq] at stops
        simpa using stops
      subst b
      rw [behindEq] at splitEq lengthEq
      rw [List.length_cons] at lengthEq
      refine ⟨earlier.length, by omega, ?_⟩
      have takeEq : text.take offset = earlier.reverse ++ Byte.newline :: line.reverse := by
        rw [← List.reverse_reverse (text.take offset), ← splitEq]
        simp
      have lastLt : earlier.length < offset := by omega
      rw [← List.getElem?_take_of_lt lastLt, takeEq, List.getElem?_append_right (by simp)]
      simp

/-- From an offset on, a text is the rest of its line, the newline, and what
follows. -/
theorem drop_eq_append_newline {text : Bytes} {start last : Nat}
    (newline : text[last]? = some Byte.newline) (startLe : start ≤ last) :
    text.drop start =
      (text.take last).drop start ++ Byte.newline :: text.drop (last + 1) := by
  obtain ⟨lastLt, newlineEq⟩ := List.getElem?_eq_some_iff.mp newline
  have splitEq : text = text.take last ++ Byte.newline :: text.drop (last + 1) := by
    rw [← newlineEq, ← List.drop_eq_getElem_cons lastLt, List.take_append_drop]
  have startInside : start ≤ (text.take last).length := by
    rw [List.length_take]
    omega
  calc
    text.drop start = (text.take last ++ Byte.newline :: text.drop (last + 1)).drop start :=
        congrArg (List.drop start) splitEq
    _ = (text.take last).drop start ++ Byte.newline :: text.drop (last + 1) :=
        List.drop_append_of_le_length startInside

end Bytes

/-! ## The tokens in front of the changes -/

namespace Lexer

variable {lexer : Lexer} {old new : Bytes} {last : Nat}

/-- A token that ends before a newline is the same in all texts that agree up to
the newline. -/
theorem tokenAt_eq_of_stop_le (newlineFree : lexer.NewlineFree)
    (frontEq : new.take (last + 1) = old.take (last + 1))
    (newline : new[last]? = some Byte.newline) {start : Nat} (inside : start < old.length)
    (stopLe : (lexer.tokenAt old start).stop ≤ last) :
    lexer.tokenAt new start = lexer.tokenAt old start := by
  have startLe : start ≤ last := Nat.le_trans (Nat.le_of_lt (lexer.lt_stop_tokenAt inside)) stopLe
  have takeEq (count : Nat) (countLe : count ≤ last + 1) : new.take count = old.take count := by
    rw [← Nat.min_eq_left countLe, ← List.take_take, frontEq, List.take_take]
  have oldNewline : old[last]? = some Byte.newline := by
    rw [← newline, ← List.getElem?_take_of_lt (Nat.lt_succ_self last),
      ← List.getElem?_take_of_lt (l := new) (Nat.lt_succ_self last), frontEq]
  have lastLt := (List.getElem?_eq_some_iff.mp oldNewline).1
  have lengthLe : (lexer.lexemeAt old start).length ≤ ((old.take last).drop start).length := by
    rw [List.length_drop, List.length_take]
    simp only [tokenAt] at stopLe
    omega
  have lexemeEq : lexer.lexemeAt new start = lexer.lexemeAt old start := by
    rw [lexemeAt, Bytes.drop_eq_append_newline oldNewline startLe] at lengthLe
    rw [lexemeAt, lexemeAt, Bytes.drop_eq_append_newline newline startLe,
      Bytes.drop_eq_append_newline oldNewline startLe, takeEq start (by omega),
      takeEq last (by omega)]
    exact lexeme_eq_of_length_le newlineFree lengthLe _
  rw [tokenAt, tokenAt, lexemeEq]

end Lexer

namespace TokenCache

variable {lexer : Lexer} {old new : Bytes} {lineStart : Nat}

/-- Up to the line of the first change the old tokens are those of the new text,
and the restart offset is a place where a token of the new text starts. -/
theorem tokensFrom_eq_takeWhile_append (newlineFree : lexer.NewlineFree)
    (frontEq : new.take lineStart = old.take lineStart)
    (starts : lineStart = 0 ∨ ∃ last, lineStart = last + 1 ∧ new[last]? = some Byte.newline)
    (newLe : lineStart ≤ new.length) (oldLe : lineStart ≤ old.length) {start : Nat}
    (startLe : start ≤ lineStart) :
    lexer.tokensFrom new start =
      ((lexer.tokensFrom old start).takeWhile fun token => decide (token.stop < lineStart)) ++
        lexer.tokensFrom new (restartOffset (lexer.tokensFrom old start) lineStart) := by
  refine lexer.tokensFrom_induction (motive := fun start tokens => start ≤ lineStart →
    lexer.tokensFrom new start =
      (tokens.takeWhile fun token => decide (token.stop < lineStart)) ++
        lexer.tokensFrom new (restartOffset tokens lineStart)) ?_ ?_ start startLe
  · intro start outside startLe
    rw [Nat.le_antisymm startLe (Nat.le_trans oldLe outside)]
    rfl
  · intro start inside ih startLe
    by_cases early : (lexer.tokenAt old start).stop < lineStart
    · obtain rfl | ⟨last, rfl, newline⟩ := starts
      · exact absurd early (Nat.not_lt_zero _)
      · have tokenEq := Lexer.tokenAt_eq_of_stop_le newlineFree frontEq newline inside
          (Nat.le_of_lt_succ early)
        have startLt := Nat.lt_trans (lexer.lt_stop_tokenAt inside) early
        rw [List.takeWhile_cons_of_pos (by simpa using early), List.cons_append,
          restartOffset_cons_of_lt early, ← ih (Nat.le_of_lt early), ← tokenEq]
        exact lexer.tokensFrom_of_lt (Nat.lt_of_lt_of_le startLt newLe)
    · have late := Nat.le_of_not_lt early
      rw [List.takeWhile_cons_of_neg (by simpa using late), restartOffset_cons_of_le late]
      rfl

/-! ## The tokens behind the changes -/

/-- Old tokens that a fresh token leads to are the tokens of the new text, once
they are moved. -/
theorem tokensFrom_stop_eq_map_shift {region : Region} (covers : region.Covers old new)
    {front tokens kept : List Token} {fresh : Token}
    (oldEq : lexer.tokensFrom old 0 = front ++ tokens)
    (resumed : resume? new region tokens fresh = some kept) :
    lexer.tokensFrom new fresh.stop = kept.map (·.shift region.delta) := by
  obtain ⟨behind, newline, passed, first, others, rfl, rfl, startEq⟩ := resume?_eq_some resumed
  rw [← List.append_assoc] at oldEq
  rw [lexer.eq_tokensFrom_of_append oldEq]
  -- The newline in front of the fresh end is also in the old text.
  obtain ⟨place, placeEq⟩ : ∃ place, fresh.stop = place + 1 :=
    Nat.exists_eq_add_one.mpr (Nat.zero_lt_of_lt behind)
  rw [placeEq] at behind newline startEq ⊢
  rw [Nat.add_sub_cancel] at newline
  obtain ⟨oldPlace, oldPlaceEq, dropEq⟩ := covers.exists_offset (Nat.le_of_lt_succ behind)
  have firstEq : first.start = oldPlace + 1 := by omega
  have oldNewline : old[oldPlace]? = some Byte.newline := by
    rw [← List.head?_drop, ← dropEq, List.head?_drop, newline]
  have restEq : new.drop (place + 1) = old.drop (oldPlace + 1) := by
    rw [← List.drop_drop, dropEq, List.drop_drop]
  rw [firstEq] at startEq ⊢
  exact lexer.tokensFrom_shift startEq restEq (Bytes.sameLine_of_newline oldNewline newline)

/-! ## Partial updates -/

/-- A partial update gives the tokens of the new text if the region covers all
changes since the old tokens were made. -/
theorem relex_eq_tokenize {cache : TokenCache} {region : Region}
    (newlineFree : cache.lexer.NewlineFree) (covers : region.Covers old new)
    (tokensEq : cache.tokens = cache.lexer.tokenize old) :
    cache.relex new region = cache.lexer.tokenize new := by
  have placeLe : min region.start new.length ≤ new.length := Nat.min_le_right _ _
  have starts := Bytes.lineStart_eq_zero_or_newline placeLe
  have lineLe := lineStart_le new (min region.start new.length)
  rw [relex_eq, tokensEq]
  generalize Bytes.lineStart new (min region.start new.length) = lineStart at *
  have newLe : lineStart ≤ new.length := Nat.le_trans lineLe placeLe
  have frontEq : new.take lineStart = old.take lineStart := by
    have startLe : lineStart ≤ region.start := Nat.le_trans lineLe (Nat.min_le_left _ _)
    rw [← Nat.min_eq_left startLe, ← List.take_take, covers.front, List.take_take]
  have oldLe : lineStart ≤ old.length := by
    have lengthEq := congrArg List.length frontEq
    rw [List.length_take, List.length_take] at lengthEq
    omega
  have splitEq := tokensFrom_eq_takeWhile_append newlineFree frontEq starts newLe oldLe
    (Nat.zero_le lineStart)
  rw [← Lexer.tokenize, ← Lexer.tokenize] at splitEq
  rw [splitEq, List.append_cancel_left_eq]
  rcases resync_cases new region
      ((cache.lexer.tokenize old).dropWhile fun token => decide (token.stop < lineStart))
      (cache.lexer.tokensFrom new (restartOffset (cache.lexer.tokenize old) lineStart)) with
    allFresh | ⟨front, last, others, kept, freshEq, resumed, resyncEq⟩
  · rw [allFresh, List.map_nil, List.append_nil]
  · have keptEq := tokensFrom_stop_eq_map_shift covers
      (List.takeWhile_append_dropWhile (p := fun token => decide (token.stop < lineStart))).symm
      resumed
    rw [resyncEq, freshEq, List.append_assoc, List.singleton_append, ← keptEq,
      ← cache.lexer.eq_tokensFrom_stop_of_append freshEq]

end TokenCache

/-! ## Documents that are edited -/

/-- A text and the cache that is told of its changes. -/
structure Document where
  text : Bytes
  cache : TokenCache

namespace Document

/-- What happens to a document. -/
inductive Action where
  /-- The bytes from `start` to `stop` give way to others, and the cache is told
  so. -/
  | splice (start stop : Nat) (bytes : Bytes)
  /-- The cache is told that a range may have changed.  The range need not make
  sense. -/
  | touch (start stop : Nat)
  /-- The tokens are brought in line with the text. -/
  | update (force : Bool)

/-- A document with a cache that has not seen it. -/
def fresh (lexer : Lexer) (text : Bytes) : Document where
  text := text
  cache := .new lexer

/-- The document after an action. -/
def perform (document : Document) : Action → Document
  | .splice start stop bytes =>
      { text := document.text.take start ++ bytes ++ document.text.drop stop
        cache := document.cache.edit (.replace start stop bytes.length) }
  | .touch start stop => { document with cache := document.cache.touch start stop }
  | .update force => { document with cache := document.cache.update document.text force }

/-- The document after some actions. -/
def performAll (document : Document) (actions : List Action) : Document :=
  actions.foldl perform document

/-- The bytes that an action takes out are there.  As every text in memory, those
before and after it are addressable. -/
def Admits (document : Document) : Action → Prop
  | .splice start stop bytes =>
      (start ≤ stop ∧ stop ≤ document.text.length) ∧
        Bytes.Addressable document.text ∧
        Bytes.Addressable (document.text.take start ++ bytes ++ document.text.drop stop)
  | .touch _ _ => True
  | .update _ => True

/-- The bytes that each of some actions takes out are there when its turn
comes. -/
def AdmitsAll (document : Document) : List Action → Prop
  | [] => True
  | action :: rest => document.Admits action ∧ (document.perform action).AdmitsAll rest

/-- What the cache has recorded accounts for all changes since `old`. -/
def Accounts (document : Document) (old : Bytes) : Prop :=
  match document.cache.pending with
  | none => document.text = old
  | some region => region.Covers old document.text

/-- The tokens, if there are any, are those of an earlier text, and the cache
knows what has changed since. -/
structure Tracked (lexer : Lexer) (document : Document) : Prop where
  sameLexer : document.cache.lexer = lexer
  tokens : document.cache.lexed = true →
    ∃ old, document.cache.tokens = lexer.tokenize old ∧ document.Accounts old

variable {lexer : Lexer} {document : Document}

theorem tracked_fresh (lexer : Lexer) (text : Bytes) : (fresh lexer text).Tracked lexer where
  sameLexer := rfl
  tokens := by
    intro lexed
    cases lexed

/-- An edit that describes a change is recorded faithfully. -/
theorem Accounts.edit {old text : Bytes} {edit : Edit} (accounts : document.Accounts old)
    (describes : edit.Describes document.text text) :
    Accounts ⟨text, document.cache.edit edit⟩ old := by
  unfold Accounts at accounts
  change Region.Covers _ old text
  cases pendingEq : document.cache.pending with
  | none =>
      rw [pendingEq] at accounts
      rw [← accounts]
      exact Region.covers_ofEdit describes
  | some region =>
      rw [pendingEq] at accounts
      exact accounts.merge describes

theorem Tracked.edit {text : Bytes} {edit : Edit} (tracked : document.Tracked lexer)
    (describes : edit.Describes document.text text) :
    Tracked lexer ⟨text, document.cache.edit edit⟩ where
  sameLexer := tracked.sameLexer
  tokens := by
    intro lexed
    obtain ⟨old, tokensEq, accounts⟩ := tracked.tokens lexed
    exact ⟨old, tokensEq, accounts.edit describes⟩

/-- After an update the tokens are those of the text, and nothing is left to be
done. -/
theorem Tracked.update (newlineFree : lexer.NewlineFree) (tracked : document.Tracked lexer)
    (force : Bool) :
    let updated := document.cache.update document.text force
    updated.tokens = lexer.tokenize document.text ∧ updated.isStale = false ∧
      updated.pending = none ∧ updated.lexer = lexer := by
  obtain ⟨rfl, tokens⟩ := tracked
  rcases document.cache.update_cases document.text force with
    ⟨lexed, pendingEq, _, updateEq⟩ | updateEq | ⟨region, lexed, pendingEq, _, updateEq⟩
  · obtain ⟨old, tokensEq, accounts⟩ := tokens lexed
    rw [Accounts, pendingEq] at accounts
    rw [updateEq, accounts]
    refine ⟨tokensEq, ?_, pendingEq, rfl⟩
    rw [TokenCache.isStale, lexed, pendingEq]
    rfl
  · rw [updateEq]
    exact ⟨rfl, rfl, rfl, rfl⟩
  · obtain ⟨old, tokensEq, accounts⟩ := tokens lexed
    rw [Accounts, pendingEq] at accounts
    rw [updateEq]
    exact ⟨TokenCache.relex_eq_tokenize newlineFree accounts tokensEq, rfl, rfl, rfl⟩

theorem Tracked.perform (newlineFree : lexer.NewlineFree) (tracked : document.Tracked lexer)
    {action : Action} (admits : document.Admits action) :
    (document.perform action).Tracked lexer := by
  cases action with
  | splice start stop bytes =>
      obtain ⟨⟨ordered, inside⟩, before, after⟩ := admits
      exact tracked.edit (Edit.describes_replace ordered inside before after)
  | touch start stop => exact tracked.edit (Edit.describes_touch start stop document.text)
  | update force =>
      obtain ⟨tokensEq, _, pendingEq, lexerEq⟩ := tracked.update newlineFree force
      refine ⟨lexerEq, ?_⟩
      intro _
      refine ⟨document.text, tokensEq, ?_⟩
      rw [Accounts, Document.perform, pendingEq]

theorem Tracked.performAll (newlineFree : lexer.NewlineFree) (tracked : document.Tracked lexer)
    {actions : List Action} (admits : document.AdmitsAll actions) :
    (document.performAll actions).Tracked lexer := by
  induction actions generalizing document with
  | nil => exact tracked
  | cons action actions ih => exact ih (tracked.perform newlineFree admits.1) admits.2

/-- However a document was edited and however often its tokens were updated, one
more update gives the tokens of its text. -/
theorem tokens_update_performAll {lexer : Lexer} (newlineFree : lexer.NewlineFree) (text : Bytes)
    {actions : List Action} (admits : (fresh lexer text).AdmitsAll actions) (force : Bool) :
    let document := ((fresh lexer text).performAll actions).perform (.update force)
    document.cache.tokens = lexer.tokenize document.text ∧ document.cache.isStale = false := by
  have tracked := (tracked_fresh lexer text).performAll newlineFree admits
  obtain ⟨tokensEq, staleEq, _⟩ := tracked.update newlineFree force
  exact ⟨tokensEq, staleEq⟩

/-- A comment that is not closed is opened in front of lexed lines and taken back
again, with a range that runs backwards touched in between. -/
theorem tokens_update_performAll_comment :
    let document := ((fresh (.ofLanguage .cpp) [0x61, 0x0A, 0x62, 0x0A]).performAll
      [.update false, .splice 0 1 [0x2F, 0x2A], .touch 9 2, .update false,
        .splice 1 2 [], .splice 3 3 [0x22]]).perform (.update false)
    document.cache.tokens = (Lexer.ofLanguage .cpp).tokenize document.text ∧
      document.cache.isStale = false :=
  tokens_update_performAll (Lexer.newlineFree_ofLanguage .cpp) [0x61, 0x0A, 0x62, 0x0A]
    (by simp [AdmitsAll, Admits, perform, fresh, Bytes.Addressable, Offset.longest]) false

end Document

end Highlight
