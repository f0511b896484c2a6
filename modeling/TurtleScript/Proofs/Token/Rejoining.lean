import TurtleScript.Proofs.Token.OnePass

/-!
Tokens written out again. The tokens of a text, with a space between each two of them, are the text
in a normal form: as if each bracket had been given spaces on both sides and then all separators
been made single spaces. Written out with any single separator between them, tokens are read back as
they were.

Everything rests on how the tokens of a text are put together from those of its parts: a separator
between two texts keeps their tokens apart, so each part can be read by itself.
-/

namespace TurtleScript

namespace Token

/-- Tokens written one after the other. -/
def joined (separator : String) (ts : List Token) : String :=
  separator.intercalate (ts.map Token.text)

/-- A text with spaces on both sides of each bracket. -/
def spaced (cs : List Char) : List Char :=
  cs.flatMap fun c => if c = '[' ∨ c = ']' then [' ', c, ' '] else [c]

/-- The pieces between the spaces and newlines of a text, without the empty ones. -/
def pieces (cs : List Char) : List (List Char) :=
  (cs.splitOnP isSeparator).filter (· ≠ [])

/-- A text with each bracket apart and single spaces for all its separators. -/
def normalized (text : String) : String :=
  " ".intercalate ((pieces (spaced text.toList)).map String.ofList)

section

variable {word cs : List Char} {c : Char} {ts : List Token}

/-- A separator keeps the pieces of two texts apart. -/
theorem pieces_append (hc : isSeparator c = true) (cs rest : List Char) :
    pieces (cs ++ c :: rest) = pieces cs ++ pieces rest := by
  unfold pieces
  rw [List.splitOnP_append_cons cs rest hc, List.filter_append]

theorem pieces_of_word (hword : ∀ c ∈ word, isSeparator c = false) (hne : word ≠ []) :
    pieces word = [word] := by
  unfold pieces
  rw [List.splitOnP_eq_singleton hword]
  simp [hne]

theorem pieces_flush (hword : ∀ c ∈ word, isSeparator c = false) :
    (pieces word).map String.ofList = (flush word).map Token.text := by
  by_cases hne : word = []
  · subst hne
    rfl
  · rw [pieces_of_word hword hne, flush_of_ne_nil hne]
    rfl

theorem spaced_of_bracket (hc : isBracketChar c = true) :
    spaced (c :: cs) = ' ' :: c :: ' ' :: spaced cs := by
  simp [spaced, isBracketChar_iff.mp hc]

theorem spaced_of_ne (hc : isBracketChar c = false) : spaced (c :: cs) = c :: spaced cs := by
  simp [spaced, isBracketChar_eq_false_iff.mp hc]

/-- One pass finds the pieces of a text with its brackets apart, where a pending word is the start of
the text. -/
theorem onePass_eq_pieces {word : List Char} (hword : ∀ c ∈ word, isSeparator c = false)
    (cs : List Char) :
    (onePass separators word cs).map Token.text =
      (pieces (word ++ spaced cs)).map String.ofList := by
  induction cs generalizing word with
  | nil =>
      change _ = (pieces (word ++ [])).map _
      rw [List.append_nil, pieces_flush hword]
      rfl
  | cons c cs ih =>
      cases hbracket : isBracketChar c with
      | true =>
          have hpiece : pieces [c] = [[c]] := by
            apply pieces_of_word
            · intro d hd
              rw [List.mem_singleton.mp hd]
              exact isSeparator_of_bracket hbracket
            · exact List.cons_ne_nil c []
          have hsplit : pieces (c :: ' ' :: spaced cs) = pieces [c] ++ pieces (spaced cs) :=
            pieces_append (by decide) [c] (spaced cs)
          rw [onePass_of_bracket hbracket, spaced_of_bracket hbracket,
            pieces_append (by decide) word, hsplit, hpiece, List.map_append, List.map_append,
            pieces_flush hword]
          simp [ih (List.forall_mem_nil _)]
      | false =>
          rw [spaced_of_ne hbracket]
          cases hc : isSeparator c with
          | true =>
              rw [onePass_of_separator hc, pieces_append hc word, List.map_append, List.map_append,
                pieces_flush hword, ih (List.forall_mem_nil _), List.nil_append]
          | false =>
              have hlonger : ∀ d ∈ word ++ [c], isSeparator d = false := by
                intro d hd
                rcases List.mem_append.mp hd with hd | hd
                · exact hword d hd
                · rw [List.mem_singleton.mp hd]
                  exact hc
              rw [onePass_of_wordChar (isWordChar_eq_true_iff.mpr ⟨hc, hbracket⟩), ih hlonger,
                List.append_assoc]
              rfl

/-- A separator ends what comes before it, also for a scanner with a pending word. -/
theorem onePass_append_separator (hc : isSeparator c = true) (pending cs rest : List Char) :
    onePass separators pending (cs ++ c :: rest) =
      onePass separators pending cs ++ onePass separators [] rest := by
  induction cs generalizing pending with
  | nil => exact onePass_of_separator hc
  | cons d cs ih =>
      rw [List.cons_append]
      cases hd : isSeparator d with
      | true =>
          rw [onePass_of_separator hd, onePass_of_separator hd, ih, List.append_assoc]
      | false =>
          cases hbracket : isBracketChar d with
          | true =>
              rw [onePass_of_bracket hbracket, onePass_of_bracket hbracket, ih,
                List.append_assoc]
              rfl
          | false =>
              have hword := isWordChar_eq_true_iff.mpr ⟨hd, hbracket⟩
              rw [onePass_of_wordChar hword, onePass_of_wordChar hword, ih]

theorem tokenize_eq_onePass (text : String) :
    tokenize text = onePass separators [] text.toList := by
  rw [tokenize, split_eq_onePass]

/-- Tokens with single separators between them spell themselves. -/
theorem spells_joined {separator : Char} (hseparator : isSeparator separator = true)
    (hts : ∀ t ∈ ts, t.IsWritten) : Spells ts (joined (String.singleton separator) ts).toList := by
  unfold joined
  induction ts with
  | nil => exact .nil
  | cons t ts ih =>
      have ht : t.IsWritten := hts t List.mem_cons_self
      have hspells := ih fun u hu => hts u (List.mem_cons_of_mem t hu)
      cases ts with
      | nil =>
          have hlast : Spells [t] (t.text.toList ++ ([] ++ [])) :=
            .cons ht (fun _ hc => nomatch hc) (Or.inr fun _ hc => nomatch hc) .nil
          simpa using hlast
      | cons u us =>
          have hcons := Spells.cons_separator ht hseparator hspells
          simpa [String.intercalate_cons_cons] using hcons

theorem tokenize_joined (separator : Char) (hseparator : isSeparator separator = true)
    (hts : ∀ t ∈ ts, t.IsWritten) : tokenize (joined (String.singleton separator) ts) = ts := by
  have htokens := tokenize_of_spells (spells_joined hseparator hts)
  rw [String.ofList_toList] at htokens
  exact htokens

end

/-- Reading tokens and writing them out are inverse to each other. All tokens of a text can stand in a
text, and written out with single spaces they are its normal form. Tokens that can stand in a text are
read back from what is written, with spaces or newlines; so the tokens of a text are read back, and a
separator between two texts puts their tokens one after the other. -/
theorem tokenize_inverse_joined :
    (∀ text, (∀ t ∈ tokenize text, t.IsWritten) ∧
      joined " " (tokenize text) = normalized text) ∧
    (∀ ts : List Token, (∀ t ∈ ts, t.IsWritten) →
      tokenize (joined " " ts) = ts ∧ tokenize (joined "\n" ts) = ts) ∧
    (∀ text, tokenize (joined " " (tokenize text)) = tokenize text) ∧
    (∀ a b : String, tokenize (a ++ " " ++ b) = tokenize a ++ tokenize b ∧
      tokenize (a ++ "\n" ++ b) = tokenize a ++ tokenize b) := by
  have hwritten (text : String) : ∀ t ∈ tokenize text, t.IsWritten :=
    fun _ => isWritten_of_mem_tokenize
  have hback (ts : List Token) (hts : ∀ t ∈ ts, t.IsWritten) :
      tokenize (joined " " ts) = ts ∧ tokenize (joined "\n" ts) = ts :=
    ⟨tokenize_joined ' ' (by decide) hts, tokenize_joined '\n' (by decide) hts⟩
  refine ⟨fun text => ⟨hwritten text, ?_⟩, hback, ?_, ?_⟩
  · have hpieces := onePass_eq_pieces (List.forall_mem_nil _) text.toList
    rw [joined, normalized, tokenize_eq_onePass, hpieces, List.nil_append]
  · intro text
    exact (hback (tokenize text) (hwritten text)).1
  · intro a b
    have happend (c : Char) (hc : isSeparator c = true) :
        tokenize (a ++ String.singleton c ++ b) = tokenize a ++ tokenize b := by
      have hscan := onePass_append_separator hc [] a.toList b.toList
      rw [tokenize_eq_onePass, tokenize_eq_onePass, tokenize_eq_onePass, ← hscan]
      simp
    exact ⟨happend ' ' (by decide), happend '\n' (by decide)⟩

/-- Brackets between words, one of which has a tab in it, and a text with two blanks. -/
theorem tokenize_inverse_joined_bracketed :
    let ts : List Token := [opening, ⟨"fd\t1"⟩, closing, closing, ⟨"x"⟩]
    (∀ t ∈ ts, t.IsWritten) ∧ tokenize "[ fd\t1 ] ] x" = ts ∧ tokenize "[\nfd\t1\n]\n]\nx" = ts ∧
      " ".intercalate ((tokenize "[fd\t1]  ]x").map Token.text) = "[ fd\t1 ] ] x" := by
  intro ts
  obtain ⟨hjoined, hback, -, -⟩ := tokenize_inverse_joined
  have hts : ∀ t ∈ ts, t.IsWritten := by decide
  obtain ⟨hspaces, hnewlines⟩ := hback ts hts
  obtain ⟨-, hnormal⟩ := hjoined "[fd\t1]  ]x"
  refine ⟨hts, hspaces, hnewlines, ?_⟩
  exact hnormal.trans (by decide)

end Token

end TurtleScript
