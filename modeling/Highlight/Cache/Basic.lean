import Highlight.Cache.Edit
import Highlight.Lexer.Basic

/-!
# The token cache of a document

A cache holds the tokens of a document that is being edited.  Edits are
recorded as one region.  An update re-lexes from the line in which the region
starts, and stops as soon as a line start behind the region is also the start
of an old token: from there on the old tokens are kept and moved.  If the
recorded edits do not account for the new length, everything is lexed anew.
-/

namespace Highlight

namespace Bytes

/-- The offset at which the line of an offset starts. -/
def lineStart (text : Bytes) (offset : Nat) : Nat :=
  offset - ((text.take offset).reverse.takeWhile (· != Byte.newline)).length

end Bytes

/-- The tokens of a document and what happened to it since they were made. -/
structure TokenCache where
  lexer : Lexer
  tokens : List Token := []
  /-- The length of the text that the tokens were made for. -/
  length : Nat := 0
  /-- Whether the tokens were ever made. -/
  lexed : Bool := false
  /-- What changed since. -/
  pending : Option Region := none

namespace TokenCache

/-- The cache of a document not seen yet. -/
def new (lexer : Lexer) : TokenCache where
  lexer := lexer

/-- Records an edit of the document. -/
def edit (cache : TokenCache) (edit : Edit) : TokenCache :=
  { cache with
    pending := some (match cache.pending with
      | some region => region.merge edit
      | none => .ofEdit edit) }

/-- Has a range lexed anew by the next update. -/
def touch (cache : TokenCache) (start stop : Nat) : TokenCache :=
  cache.edit (.touch start stop)

/-- Whether the tokens wait for an update. -/
def isStale (cache : TokenCache) : Bool :=
  !cache.lexed || cache.pending.isSome

/-- Whether the recorded region accounts for the length of `text`.  The lengths
are compared as signed words. -/
def accountsFor (cache : TokenCache) (text : Bytes) (region : Region) : Bool :=
  decide (Offset.signed (Offset.signed cache.length + region.delta) = Offset.signed text.length)
    && decide (region.stop ≤ text.length)

/-- The old tokens from the one on that a fresh token leads to: the fresh one
ends behind the region with a newline, and an old one starts where that end was
before the edits.  A region that accounts for the length of the text places that
end no further than the old length, so that the difference does not wrap. -/
def resume? (text : Bytes) (region : Region) (old : List Token) (fresh : Token) :
    Option (List Token) :=
  if region.stop < fresh.stop ∧ text[fresh.stop - 1]? = some Byte.newline then
    let rest := old.dropWhile fun token =>
      decide ((token.start : Int) ≠ (fresh.stop : Int) - region.delta)
    if rest.isEmpty then none else some rest
  else none

/-- The fresh tokens up to the first that leads back to old ones, and the old
ones it leads to. -/
def resync (text : Bytes) (region : Region) (old : List Token) :
    List Token → List Token × List Token
  | [] => ([], [])
  | fresh :: rest =>
      match resume? text region old fresh with
      | some kept => ([fresh], kept)
      | none =>
          let (others, kept) := resync text region old rest
          (fresh :: others, kept)

/-- The tokens of a text that differs from the one before only in a region. -/
def relex (cache : TokenCache) (text : Bytes) (region : Region) : List Token :=
  let lineStart := Bytes.lineStart text (min region.start text.length)
  let untouched := cache.tokens.takeWhile fun token => decide (token.stop < lineStart)
  let old := cache.tokens.dropWhile fun token => decide (token.stop < lineStart)
  let restart := (old.head?.map Token.start).getD lineStart
  let (fresh, kept) := resync text region old (cache.lexer.tokensFrom text restart)
  untouched ++ fresh
    ++ (if region.delta = 0 then kept else kept.map (·.shift region.delta))

/-- Brings the tokens in line with a text.  Nothing happens if nothing changed;
`force` has everything lexed anew. -/
def update (cache : TokenCache) (text : Bytes) (force : Bool) : TokenCache :=
  let made (tokens : List Token) : TokenCache :=
    { cache with
      tokens := tokens
      length := text.length
      lexed := true
      pending := none }
  if !cache.lexed || force then made (cache.lexer.tokenize text)
  else
    match cache.pending with
    | none => if cache.length = text.length then cache else made (cache.lexer.tokenize text)
    | some region =>
        if cache.accountsFor text region then made (cache.relex text region)
        else made (cache.lexer.tokenize text)

/-! ## Queries -/

/-- The kind of the token at an offset. -/
def kindAt? (cache : TokenCache) (offset : Nat) : Option TokenKind :=
  ((cache.tokens.dropWhile fun token => decide (token.stop ≤ offset)).head?.filter
    fun token => decide (token.start ≤ offset)).map Token.kind

/-- The tokens that overlap a range. -/
def tokensIn (cache : TokenCache) (start stop : Nat) : List Token :=
  let first := (cache.tokens.takeWhile fun token => decide (token.stop ≤ start)).length
  let last := (cache.tokens.takeWhile fun token => decide (token.start < stop)).length
  (cache.tokens.take last).drop first

end TokenCache

end Highlight
