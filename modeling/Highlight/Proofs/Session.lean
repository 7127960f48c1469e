import Highlight.Proofs.Lexer.Boundary
import Highlight.Proofs.Render.Html
import Highlight.Session

/-!
# Rendering a whole text

A lexer covers a text with slices that lie side by side, so the characters under
its tokens are the text.  With that a session renders every text it has a lexer
for, and a reader of the markup finds the text again, with the kinds of the
tokens.
-/

namespace Highlight

namespace Lexer

open Highlight.Utf8 Highlight.Text

variable (lexer : Lexer)

/-- The token at a boundary has a slice of the text, which is the front of what
follows. -/
theorem slice?_tokenAt {left right : List Char}
    (inside : (encode left).length < (encode (left ++ right)).length) :
    let token := lexer.tokenAt (encode (left ++ right)) (encode left).length
    ∃ middle rest, right = middle ++ rest ∧ token.stop = (encode (left ++ middle)).length ∧
      slice? (left ++ right) token.start token.stop = some middle := by
  intro token
  have boundary : Boundary (left ++ right) (encode left).length := ⟨left, right, rfl, rfl⟩
  obtain ⟨stopBoundary, _⟩ := lexer.tokenAt_boundary boundary inside
  obtain ⟨middle, rest, rfl, stopEq⟩ :=
    exists_append_of_boundary stopBoundary (Nat.le_of_lt (lexer.lt_stop_tokenAt inside))
  refine ⟨middle, rest, rfl, ?_, ?_⟩
  · rw [encode_append, List.length_append]
    exact stopEq.symm
  · change slice? _ (encode left).length (lexer.tokenAt _ _).stop = some middle
    rw [← stopEq]
    exact slice?_of_append left middle rest

/-- From a boundary on, every token has a slice of the text, and the slices are the
rest of the text. -/
theorem tokensFrom_text (left right : List Char) :
    let tokens := lexer.tokensFrom (encode (left ++ right)) (encode left).length
    (∀ token ∈ tokens, token.InText (left ++ right)) ∧
      tokens.flatMap (Token.text (left ++ right)) = right := by
  refine lexer.tokensFrom_induction (motive := fun start tokens => ∀ front back,
    left ++ right = front ++ back → (encode front).length = start →
      (∀ token ∈ tokens, token.InText (left ++ right)) ∧
        tokens.flatMap (Token.text (left ++ right)) = back) ?_ ?_ _ left right rfl rfl
  · rintro start outside front back appendEq rfl
    rw [appendEq, encode_append, List.length_append] at outside
    have backEq : back = [] := eq_nil_of_length_encode (by omega)
    exact ⟨List.forall_mem_nil _, backEq.symm⟩
  · rintro start inside ih front back appendEq rfl
    rw [appendEq] at inside ih ⊢
    obtain ⟨middle, rest, rfl, stopEq, sliced⟩ := lexer.slice?_tokenAt inside
    obtain ⟨inText, textEq⟩ := ih (front ++ middle) rest (List.append_assoc _ _ _).symm stopEq.symm
    constructor
    · exact List.forall_mem_cons.mpr ⟨Option.isSome_iff_exists.mpr ⟨middle, sliced⟩, inText⟩
    · rw [List.flatMap_cons, textEq, Token.text, sliced]
      rfl

/-- The tokens of a text have slices of it, which are the text. -/
theorem tokenize_text (source : String) :
    (∀ token ∈ lexer.tokenize (Utf8.bytes source), token.InText source.toList) ∧
      (lexer.tokenize (Utf8.bytes source)).flatMap (Token.text source.toList) = source.toList :=
  lexer.tokensFrom_text [] source.toList

end Lexer

namespace Session

variable (session : Session)

/-- Only an unknown name is left without a lexer. -/
theorem eq_unknown_of_lexer {name : String} {problem : SessionError}
    (failed : session.lexer name = .error problem) : problem = .grammar (.unknown name) := by
  unfold lexer at failed
  split at failed
  · cases failed
  · split at failed
    · cases failed
    · cases failed
      rfl

/-- With a lexer, markup output is the rendering of what the lexer finds. -/
theorem renderText_of_html (format : session.render.format = .html) {name : String} {lexer : Lexer}
    (lexerEq : session.lexer name = .ok lexer) (source : String) :
    session.renderText source name =
      (session.render.html.render source (lexer.tokenize (Utf8.bytes source))
        session.theme).mapError .render := by
  have tokensEq : session.tokenize source name = .ok (lexer.tokenize (Utf8.bytes source)) := by
    rw [tokenize, lexerEq]
    rfl
  rw [renderText, tokensEq]
  change session.renderTokens source _ = _
  rw [renderTokens, format]

/-- A session with markup output renders every text, unless the name of the grammar is
unknown.  The output is one `pre` element with the characters of the text in order.
With classes, a character of a token stands in one token span, whose class names the
kind of the token; whitespace and newlines stand in none. -/
theorem exists_document_renderText (format : session.render.format = .html)
    (plain : ∀ char ∈ session.render.classPrefix.toList, char ∉ ['<', '>', '"', '&', '\''])
    (source name : String) :
    match session.lexer name with
    | .error problem =>
        problem = .grammar (.unknown name) ∧ session.renderText source name = .error problem
    | .ok lexer => ∃ output root placed,
        session.renderText source name = .ok output ∧
        Markup.document? output = some (root, placed) ∧
        root.name = "pre" ∧
        placed.map Placed.char = source.toList ∧
        (session.render.inlineStyles = false →
          placed.map (fun p => (p.char, p.tokenClasses)) =
            (lexer.tokenize (Utf8.bytes source)).flatMap fun token =>
              (token.text source.toList).map fun char =>
                (char,
                  if token.kind = .whitespace ∨ char = '\n' then []
                  else [some (session.render.classPrefix ++ token.kind.key)])) := by
  have quotable : Markup.Quotable session.render.html.classPrefix.toList := by
    constructor
    · intro member
      exact plain _ member (by decide)
    · intro member
      exact plain _ member (by decide)
  cases lexerEq : session.lexer name with
  | error problem =>
      refine ⟨session.eq_unknown_of_lexer lexerEq, ?_⟩
      rw [renderText, tokenize, lexerEq]
      rfl
  | ok lexer =>
      obtain ⟨inText, textEq⟩ := lexer.tokenize_text source
      obtain ⟨output, rendered, document⟩ :=
        Html.document?_render quotable session.theme inText
      refine ⟨output, _, _, ?_, document, Html.name_page _ _, ?_, ?_⟩
      · rw [session.renderText_of_html format lexerEq, rendered]
        rfl
      · rw [Html.map_char_placed, textEq]
      · intro classes
        exact Html.map_tokenClasses_placed classes _ _ _

/-- A comment of two lines that holds a bracket, a space and a character of two bytes,
with numbered lines. -/
theorem exists_document_renderText_comment :
    ∃ output root placed,
      renderText { initial with render := { lineNumbers := true } } "/*\n<*/ é" "cpp" =
          .ok output ∧
        Markup.document? output = some (root, placed) ∧
        root.name = "pre" ∧
        placed.map Placed.char = "/*\n<*/ é".toList ∧
        placed.map (fun p => (p.char, p.tokenClasses)) =
          [('/', [some "tg-comment"]), ('*', [some "tg-comment"]), ('\n', []),
            ('<', [some "tg-comment"]), ('*', [some "tg-comment"]), ('/', [some "tg-comment"]),
            (' ', []), ('é', [some "tg-error"])] := by
  have plain : ∀ char ∈ "tg-".toList, char ∉ ['<', '>', '"', '&', '\''] := by simp
  obtain ⟨output, root, placed, rendered, document, rootName, chars, classes⟩ :=
    exists_document_renderText { initial with render := { lineNumbers := true } } rfl plain
      "/*\n<*/ é" "cpp"
  refine ⟨output, root, placed, rendered, document, rootName, chars, ?_⟩
  rw [classes rfl]
  decide +kernel

end Session

end Highlight
