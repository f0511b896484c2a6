import TurtleScript.Proofs.Token.OnePass

/-!
The tokenizer put together from parser combinators: separators, then as many tokens as there are,
each with the separators after it; a token is a bracket or else a word. A parser may fail, a
repetition fails if what it repeats consumes nothing, and whoever asks for the tokens of a text gets
none if the parser fails.

Nothing is assumed of the combinators but what they are documented to do. The main statement is that
the parser never fails and leaves no input over, and that its tokens are those that one pass over
the text finds. It consumes something in every round because a token is never empty, and it only
stops at the end of the text because every character that is no separator starts a token.
-/

namespace TurtleScript

/-- How a parser ends. -/
inductive Outcome (α : Type) where
  /-- With a value, and the input that is left. -/
  | done (rest : List Char) (value : α)
  /-- With an error after which something else may be tried. -/
  | error
  /-- With an error that ends the whole parse. -/
  | failure
  deriving DecidableEq, Repr

abbrev Parser (α : Type) := List Char → Outcome α

/-- The combinators that the tokenizer is made of. -/
structure Combinators where
  takeWhile : (Char → Bool) → Parser (List Char)
  takeTill1 : (Char → Bool) → Parser (List Char)
  oneOf : List Char → Parser Char
  map : {α β : Type} → (α → β) → Parser α → Parser β
  recognize : {α : Type} → Parser α → Parser (List Char)
  alt : {α : Type} → Parser α → Parser α → Parser α
  preceded : {α β : Type} → Parser α → Parser β → Parser β
  terminated : {α β : Type} → Parser α → Parser β → Parser α
  many0 : {α : Type} → Parser α → Parser (List α)

namespace Combinators

/-- What the combinators are documented to do. -/
structure AsDocumented (L : Combinators) : Prop where
  /-- The longest stretch of characters with a property, which may be empty. -/
  takeWhile : ∀ p cs, L.takeWhile p cs = .done (cs.dropWhile p) (cs.takeWhile p)
  /-- The longest stretch before a character with a property, which may not be empty. -/
  takeTill1_done : ∀ {p c} cs, p c = false →
    L.takeTill1 p (c :: cs) = .done (cs.dropWhile (!p ·)) (c :: cs.takeWhile (!p ·))
  takeTill1_error : ∀ {p cs}, (∀ c ∈ cs.head?, p c = true) → L.takeTill1 p cs = .error
  /-- The next character, if it is among those given. -/
  oneOf_done : ∀ {chars c} cs, c ∈ chars → L.oneOf chars (c :: cs) = .done cs c
  oneOf_error : ∀ {chars cs}, (∀ c ∈ cs.head?, c ∉ chars) → L.oneOf chars cs = .error
  /-- The value of a parser under a function. -/
  map_done : ∀ {α β} {f : α → β} {p : Parser α} {cs rest value},
    p cs = .done rest value → L.map f p cs = .done rest (f value)
  map_error : ∀ {α β} {f : α → β} {p : Parser α} {cs}, p cs = .error → L.map f p cs = .error
  /-- What a parser has consumed, instead of its value. -/
  recognize_done : ∀ {α} {p : Parser α} {consumed rest value},
    p (consumed ++ rest) = .done rest value →
      L.recognize p (consumed ++ rest) = .done rest consumed
  recognize_error : ∀ {α} {p : Parser α} {cs}, p cs = .error → L.recognize p cs = .error
  /-- One parser, or another if the first ends with an error. -/
  alt_done : ∀ {α} {p q : Parser α} {cs rest value},
    p cs = .done rest value → L.alt p q cs = .done rest value
  alt_error : ∀ {α} {p q : Parser α} {cs}, p cs = .error → L.alt p q cs = q cs
  /-- Two parsers one after the other, of which the first one's value is dropped. -/
  preceded_done : ∀ {α β} {p : Parser α} {q : Parser β} {cs rest value},
    p cs = .done rest value → L.preceded p q cs = q rest
  /-- Two parsers one after the other, of which the second one's value is dropped. -/
  terminated_done : ∀ {α β} {p : Parser α} {q : Parser β} {cs middle rest value dropped},
    p cs = .done middle value → q middle = .done rest dropped →
      L.terminated p q cs = .done rest value
  terminated_error : ∀ {α β} {p : Parser α} {q : Parser β} {cs},
    p cs = .error → L.terminated p q cs = .error
  /-- A parser again and again, until it ends with an error. Nothing is said of a parser that
  succeeds without consuming anything. -/
  many0_error : ∀ {α} {p : Parser α} {cs}, p cs = .error → L.many0 p cs = .done cs []
  many0_done : ∀ {α} {p : Parser α} {cs middle rest value values},
    p cs = .done middle value → middle.length < cs.length → L.many0 p middle = .done rest values →
      L.many0 p cs = .done rest (value :: values)

section

variable (L : Combinators)

def isDelimiter (c : Char) : Bool :=
  Token.isSeparator c || Token.isBracketChar c

def tokenOf (text : List Char) : Token :=
  ⟨String.ofList text⟩

def blank : Parser (List Char) :=
  L.takeWhile Token.isSeparator

def bracket : Parser Token :=
  L.map tokenOf (L.recognize (L.oneOf ['[', ']']))

def word : Parser Token :=
  L.map tokenOf (L.takeTill1 isDelimiter)

def token : Parser Token :=
  L.alt L.bracket L.word

def tokens : Parser (List Token) :=
  L.preceded L.blank (L.many0 (L.terminated L.token L.blank))

/-- The tokens of a text, and none if the parser fails. -/
def tokenize (text : String) : List Token :=
  match L.tokens text.toList with
  | .done _ ts => ts
  | .error => []
  | .failure => []

end

variable {L : Combinators} {cs rest : List Char} {c : Char} {t : Token}

theorem blank_done (h : L.AsDocumented) (cs : List Char) :
    L.blank cs = .done (cs.dropWhile Token.isSeparator) (cs.takeWhile Token.isSeparator) :=
  h.takeWhile Token.isSeparator cs

theorem bracket_done (h : L.AsDocumented) (hc : Token.isBracketChar c = true) :
    L.bracket (c :: cs) = .done cs ⟨String.singleton c⟩ := by
  have hmem : c ∈ ['[', ']'] := by
    simpa using Token.isBracketChar_iff.mp hc
  have hread : L.oneOf ['[', ']'] ([c] ++ cs) = .done cs c := h.oneOf_done cs hmem
  exact h.map_done (h.recognize_done hread)

theorem bracket_error (h : L.AsDocumented) (hcs : ∀ c ∈ cs.head?, Token.isBracketChar c = false) :
    L.bracket cs = .error := by
  apply h.map_error
  apply h.recognize_error
  apply h.oneOf_error
  intro c hc hmem
  have hbracket : Token.isBracketChar c = true := by
    rw [Token.isBracketChar_iff]
    simpa using hmem
  rw [hcs c hc] at hbracket
  cases hbracket

theorem word_done (h : L.AsDocumented) (hc : isDelimiter c = false) :
    L.word (c :: cs) =
      .done (cs.dropWhile Token.isWordChar) ⟨String.ofList (c :: cs.takeWhile Token.isWordChar)⟩ :=
  h.map_done (h.takeTill1_done cs hc)

/-- The parser of one token finds the token at the start of a text, or ends with an error. -/
theorem token_eq_first? (h : L.AsDocumented) (cs : List Char) :
    L.token cs =
      match Token.first? cs with
      | some (t, rest) => .done rest t
      | none => .error := by
  cases cs with
  | nil =>
      have hbracket : L.bracket [] = .error := bracket_error h fun _ hc => nomatch hc
      have hword : L.word [] = .error := h.map_error (h.takeTill1_error fun _ hc => nomatch hc)
      exact (h.alt_error hbracket).trans hword
  | cons c cs =>
      have hhead {p : Char → Bool} {b : Bool} (hc : p c = b) : ∀ d ∈ (c :: cs).head?, p d = b := by
        intro d hd
        cases hd
        exact hc
      cases hbracket : Token.isBracketChar c with
      | true =>
          have hseparator : Token.isSeparator c = false := Token.isSeparator_of_bracket hbracket
          rw [token, h.alt_done (bracket_done h hbracket)]
          simp [Token.first?, hseparator, hbracket]
      | false =>
          rw [token, h.alt_error (bracket_error h (hhead hbracket))]
          cases hseparator : Token.isSeparator c with
          | true =>
              have hdelimiter : isDelimiter c = true := by simp [isDelimiter, hseparator]
              rw [word, h.map_error (h.takeTill1_error (hhead hdelimiter))]
              simp [Token.first?, hseparator]
          | false =>
              have hdelimiter : isDelimiter c = false := by
                simp [isDelimiter, hseparator, hbracket]
              rw [word_done h hdelimiter]
              simp [Token.first?, hseparator, hbracket]

/-- Tokens are parsed as they are scanned. -/
theorem many0_eq_scan (h : L.AsDocumented) (cs : List Char) :
    L.many0 (L.terminated L.token L.blank) cs = .done (Token.scan cs).2 (Token.scan cs).1 := by
  fun_induction Token.scan cs with
  | case1 cs hnone =>
      apply h.many0_error
      apply h.terminated_error
      rw [token_eq_first? h, hnone]
  | case2 cs t rest hfirst ts left hscan ih =>
      have htoken : L.token cs = .done rest t := by
        rw [token_eq_first? h, hfirst]
      have hshorter : (rest.dropWhile Token.isSeparator).length < cs.length :=
        Nat.lt_of_le_of_lt (Token.length_dropWhile_le Token.isSeparator rest)
          (Token.length_lt_of_first? hfirst)
      rw [hscan] at ih
      exact h.many0_done (h.terminated_done htoken (blank_done h rest)) hshorter ih

theorem tokens_eq_split (h : L.AsDocumented) (text : String) :
    L.tokens text.toList = .done (Token.split text).2 (Token.split text).1 := by
  rw [tokens, h.preceded_done (blank_done h text.toList), many0_eq_scan h]
  rfl

/-- The parser made of combinators accepts every text, leaves no input over, and gives the tokens
that a scanner finds in one pass, with a pending word that spaces, newlines, brackets and the end of
the text flush. So do the tokenizer and the parser's caller, which never meets an error. -/
theorem tokens_eq_onePass (h : L.AsDocumented) (text : String) :
    L.tokens text.toList = .done [] (Token.onePass [' ', '\n'] [] text.toList) ∧
      Token.tokenize text = Token.onePass [' ', '\n'] [] text.toList ∧
      L.tokenize text = Token.tokenize text := by
  have hsplit : Token.split text = (Token.onePass [' ', '\n'] [] text.toList, []) :=
    Token.split_eq_onePass text
  have htokens := tokens_eq_split h text
  refine ⟨?_, ?_, ?_⟩
  · rw [htokens, hsplit]
  · rw [Token.tokenize, hsplit]
  · rw [tokenize, htokens, Token.tokenize]

/-- A parser again and again, with an error if it consumes nothing. -/
def repeated {α : Type} (p : Parser α) (cs : List Char) : Outcome (List α) :=
  match p cs with
  | .error => .done cs []
  | .failure => .failure
  | .done middle value =>
      if middle.length < cs.length then
        match repeated p middle with
        | .done rest values => .done rest (value :: values)
        | .error => .error
        | .failure => .failure
      else .error
termination_by cs.length

/-- Combinators that do what is documented, and pass on every failure. -/
def plain : Combinators where
  takeWhile p cs := .done (cs.dropWhile p) (cs.takeWhile p)
  takeTill1 p cs :=
    match cs with
    | [] => .error
    | c :: cs => if p c then .error else .done (cs.dropWhile (!p ·)) (c :: cs.takeWhile (!p ·))
  oneOf chars cs :=
    match cs with
    | [] => .error
    | c :: cs => if c ∈ chars then .done cs c else .error
  map f p cs :=
    match p cs with
    | .done rest value => .done rest (f value)
    | .error => .error
    | .failure => .failure
  recognize p cs :=
    match p cs with
    | .done rest _ => .done rest (cs.take (cs.length - rest.length))
    | .error => .error
    | .failure => .failure
  alt p q cs :=
    match p cs with
    | .done rest value => .done rest value
    | .error => q cs
    | .failure => .failure
  preceded p q cs :=
    match p cs with
    | .done rest _ => q rest
    | .error => .error
    | .failure => .failure
  terminated p q cs :=
    match p cs with
    | .done middle value =>
        match q middle with
        | .done rest _ => .done rest value
        | .error => .error
        | .failure => .failure
    | .error => .error
    | .failure => .failure
  many0 p cs := repeated p cs

theorem asDocumented_plain : plain.AsDocumented where
  takeWhile _ _ := rfl
  takeTill1_done := by
    intro p c cs hc
    simp [plain, hc]
  takeTill1_error := by
    intro p cs hcs
    cases cs with
    | nil => rfl
    | cons c cs => simp [plain, hcs c rfl]
  oneOf_done := by
    intro chars c cs hc
    simp [plain, hc]
  oneOf_error := by
    intro chars cs hcs
    cases cs with
    | nil => rfl
    | cons c cs => simp [plain, hcs c rfl]
  map_done h := by simp [plain, h]
  map_error h := by simp [plain, h]
  recognize_done h := by simp [plain, h]
  recognize_error h := by simp [plain, h]
  alt_done h := by simp [plain, h]
  alt_error h := by simp [plain, h]
  preceded_done h := by simp [plain, h]
  terminated_done h h' := by simp [plain, h, h']
  terminated_error h := by simp [plain, h]
  many0_error := by
    intro α p cs h
    change repeated p cs = _
    rw [repeated, h]
  many0_done := by
    intro α p cs middle rest value values h hshorter hrest
    have hrest' : repeated p middle = .done rest values := hrest
    change repeated p cs = _
    rw [repeated, h]
    simp [hshorter, hrest']

/-- Brackets glued to words, tabs and carriage returns inside them, and blanks at both ends. -/
theorem tokens_eq_onePass_glued :
    plain.AsDocumented ∧
      plain.tokens "\n repeat\t4[fd\r\n 10]é[ ".toList =
        .done [] [⟨"repeat\t4"⟩, ⟨"["⟩, ⟨"fd\r"⟩, ⟨"10"⟩, ⟨"]"⟩, ⟨"é"⟩, ⟨"["⟩] ∧
      plain.tokenize "\n repeat\t4[fd\r\n 10]é[ " =
        Token.tokenize "\n repeat\t4[fd\r\n 10]é[ " := by
  obtain ⟨htokens, -, htokenize⟩ :=
    tokens_eq_onePass asDocumented_plain "\n repeat\t4[fd\r\n 10]é[ "
  refine ⟨asDocumented_plain, ?_, htokenize⟩
  rw [htokens]
  decide

end Combinators

end TurtleScript
