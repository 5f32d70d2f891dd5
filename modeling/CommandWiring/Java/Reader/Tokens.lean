import CommandWiring.Java.Reader.Pieces
import CommandWiring.Text.Slice

/-!
# Tokens

A token is a lexeme at its place, together with the comments right before it. The spans of the
tokens and comments of a text are the leaves that it is cut into.
-/

namespace CommandWiring
namespace Java

structure Token where
  lexeme : Lexeme
  span : Span
  comments : List Span
deriving DecidableEq, Repr

structure TokenList where
  tokens : List Token
  trailing : List Span
deriving DecidableEq, Repr

def TokenList.lexemes (list : TokenList) : List Lexeme :=
  list.tokens.map Token.lexeme

/-- The tokens of `pieces`, which begin at the offset `start`; `comments` and `tokens` are those
already found, the last one first. -/
def tokensFrom (start : Nat) (comments : List Span) (tokens : List Token) :
    List Piece -> TokenList
  | [] => { tokens := tokens.reverse, trailing := comments.reverse }
  | piece :: rest =>
      let stop := start + utf8Length piece.text
      match piece with
      | .blank _ => tokensFrom stop comments tokens rest
      | .comment _ _ => tokensFrom stop (⟨start, stop⟩ :: comments) tokens rest
      | .lexeme lexeme =>
          tokensFrom stop []
            ({ lexeme := lexeme, span := ⟨start, stop⟩, comments := comments.reverse } :: tokens)
            rest

def tokensOf (pieces : List Piece) : TokenList :=
  tokensFrom 0 [] [] pieces

def tokenize (text : String) : TokenList :=
  tokensOf (pieces text.toList)

/-!
# The spans of a text
-/

def Token.spans (token : Token) : List Span :=
  token.comments ++ [token.span]

def TokenList.spans (list : TokenList) : List Span :=
  list.tokens.flatMap Token.spans ++ list.trailing

theorem spans_tokensFrom (start : Nat) (comments : List Span) (tokens : List Token)
    (pieces : List Piece) :
    (tokensFrom start comments tokens pieces).spans =
      tokens.reverse.flatMap Token.spans ++ comments.reverse ++
        leafSpans start (pieces.map Piece.segment) := by
  induction pieces generalizing start comments tokens with
  | nil => simp [tokensFrom, TokenList.spans, leafSpans]
  | cons piece rest ih =>
      cases piece with
      | blank text => simp [tokensFrom, leafSpans, Piece.segment, Segment.text, Piece.text, ih]
      | comment kind text =>
          simp [tokensFrom, leafSpans, Piece.segment, Segment.text, Piece.text, ih]
      | lexeme unit =>
          simp [tokensFrom, leafSpans, Piece.segment, Segment.text, Piece.text, ih, Token.spans]

theorem spans_tokenize (text : String) : (tokenize text).spans = (cuttingOf text.toList).spans := by
  rw [tokenize, tokensOf, spans_tokensFrom]
  rfl

theorem between_tokenize (text : String) :
    Between 0 text.utf8ByteSize (tokenize text).spans := by
  have between := between_leafSpans 0 (cuttingOf text.toList).segments
  rw [(cuttingOf text.toList).whole, ← utf8ByteSize_ofList, String.ofList_toList, Nat.zero_add]
    at between
  rw [spans_tokenize]
  exact between

theorem of_mem_spans_tokenize {text : String} {span : Span}
    (member : span ∈ (tokenize text).spans) :
    IsBoundary text.toList span.start ∧ IsBoundary text.toList span.stop ∧
      span.start < span.stop := by
  rw [spans_tokenize] at member
  rcases @exists_leaf_of_mem_leafSpans [] _ _ member with
    ⟨front, part, rest, isSplit, isStart, isStop⟩
  have isText : text.toList = front.flatMap Segment.text ++ part ++
      rest.flatMap Segment.text := by
    rw [← (cuttingOf text.toList).whole, isSplit, List.flatMap_append, List.flatMap_cons,
      List.append_assoc]
    rfl
  have nonempty : part ≠ [] := by
    refine (cuttingOf text.toList).nonempty (.leaf part) ?_
    rw [isSplit]
    exact List.mem_append_right _ List.mem_cons_self
  rw [List.nil_append] at isStart isStop
  refine ⟨⟨_, _, isText.trans (List.append_assoc _ _ _), isStart⟩, ⟨_, _, isText, isStop⟩, ?_⟩
  have := utf8Length_pos nonempty
  rw [isStart, isStop, utf8Length_append]
  omega

theorem mem_spans_of_mem_tokens {list : TokenList} {token : Token} (member : token ∈ list.tokens) :
    token.span ∈ list.spans :=
  List.mem_append_left _ (List.mem_flatMap.mpr ⟨token, member,
    List.mem_append_right _ (List.mem_singleton_self _)⟩)

def Token.IsFilled (token : Token) : Prop :=
  token.span.start < token.span.stop

theorem isFilled_of_mem_tokenize {text : String} {token : Token}
    (member : token ∈ (tokenize text).tokens) : token.IsFilled :=
  (of_mem_spans_tokenize (mem_spans_of_mem_tokens member)).2.2

/-!
# How tokens are spelled
-/

structure Token.StandsIn (token : Token) (start : Nat) (text before after : List Char) : Prop where
  whole : text = before ++ token.lexeme.text ++ after
  begins : token.span.start = start + utf8Length before
  ends : token.span.stop = start + utf8Length before + utf8Length token.lexeme.text

theorem Token.StandsIn.behind {token : Token} {start : Nat} {text before after : List Char}
    (first : List Char) (stands : token.StandsIn (start + utf8Length first) text before after) :
    token.StandsIn start (first ++ text) (first ++ before) after where
  whole := by rw [stands.whole, List.append_assoc, List.append_assoc, List.append_assoc]
  begins := by rw [stands.begins, utf8Length_append, Nat.add_assoc]
  ends := by rw [stands.ends, utf8Length_append, Nat.add_assoc start]

theorem standsIn_of_mem_tokensFrom {start : Nat} {comments : List Span} {tokens : List Token}
    {pieces : List Piece} {token : Token}
    (member : token ∈ (tokensFrom start comments tokens pieces).tokens) :
    token ∈ tokens ∨
      ∃ before after, token.StandsIn start (pieces.flatMap Piece.text) before after := by
  induction pieces generalizing start comments tokens with
  | nil => exact Or.inl (List.mem_reverse.mp member)
  | cons piece rest ih =>
      have later {before after : List Char}
          (stands : token.StandsIn (start + utf8Length piece.text) (rest.flatMap Piece.text)
            before after) :
          ∃ before after, token.StandsIn start ((piece :: rest).flatMap Piece.text) before after :=
        ⟨_, _, stands.behind piece.text⟩
      cases piece with
      | blank text =>
          rcases ih member with old | ⟨before, after, stands⟩
          · exact Or.inl old
          · exact Or.inr (later stands)
      | comment kind text =>
          rcases ih member with old | ⟨before, after, stands⟩
          · exact Or.inl old
          · exact Or.inr (later stands)
      | lexeme unit =>
          rcases ih member with new | ⟨before, after, stands⟩
          · rcases List.mem_cons.mp new with rfl | old
            · exact Or.inr ⟨[], rest.flatMap Piece.text, rfl, rfl, rfl⟩
            · exact Or.inl old
          · exact Or.inr (later stands)

theorem slice?_of_mem_tokenize {text : String} {token : Token}
    (member : token ∈ (tokenize text).tokens) :
    Text.slice? text token.span.start token.span.stop =
      some (String.ofList token.lexeme.text) := by
  rcases standsIn_of_mem_tokensFrom member with none | ⟨before, after, whole, start, stop⟩
  · cases none
  · rw [flatMap_text_pieces] at whole
    have isText : text = String.ofList before ++ String.ofList token.lexeme.text ++
        String.ofList after := by
      rw [← String.ofList_append, ← String.ofList_append, ← whole, String.ofList_toList]
    rw [start, stop, Nat.zero_add, ← utf8ByteSize_ofList, ← utf8ByteSize_ofList]
    rw [isText]
    exact Text.slice?_append _ _ _

end Java
end CommandWiring
