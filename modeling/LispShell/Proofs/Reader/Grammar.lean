import LispShell.Reader.Form

/-! # The grammar of forms
A form is an identifier, a quote and a form, or a parenthesised row of forms. A derivation says how
a row of tokens is a form. Part of a derivation is a row of frames: the quotes and parentheses that
are open where the tokens end, with the forms that are complete in them. The reader follows the
derivations: it reads the tokens of one as its value, from any open forms and before any other
tokens, and stops at the first token that no derivation goes on with. -/

namespace LispShell

/-- How a row of tokens is a form. -/
inductive Derivation where
  /-- An identifier. -/
  | ident (text : String)
  /-- A quote and a form. -/
  | quote (inner : Derivation)
  /-- A row of forms in parentheses. -/
  | row (items : List Derivation)

namespace Derivation

mutual
/-- The tokens of a form. -/
def tokens : Derivation → List Token
  | .ident text => [.ident text]
  | .quote inner => .quote :: inner.tokens
  | .row items => .lparen :: (tokensOfAll items ++ [.rparen])

/-- The tokens of a row of forms. -/
def tokensOfAll : List Derivation → List Token
  | [] => []
  | item :: rest => item.tokens ++ tokensOfAll rest
end

mutual
/-- The expression that a form stands for: a quote turns the form after it into data. -/
def value : Derivation → Expr
  | .ident text => .atom text
  | .quote inner => inner.value.toData
  | .row items => .call (valueOfAll items)

/-- The expressions that a row of forms stands for. -/
def valueOfAll : List Derivation → List Expr
  | [] => []
  | item :: rest => item.value :: valueOfAll rest
end

mutual
/-- The greatest number of quotes and parentheses that are open at once. -/
def nesting : Derivation → Nat
  | .ident _ => 0
  | .quote inner => inner.nesting + 1
  | .row items => nestingOfAll items + 1

/-- The greatest nesting in a row of forms. -/
def nestingOfAll : List Derivation → Nat
  | [] => 0
  | item :: rest => max item.nesting (nestingOfAll rest)
end

theorem tokensOfAll_append (items others : List Derivation) :
    tokensOfAll (items ++ others) = tokensOfAll items ++ tokensOfAll others := by
  induction items with
  | nil => rfl
  | cons item rest inductionHypothesis => simp [tokensOfAll, inductionHypothesis]

theorem valueOfAll_eq_map (items : List Derivation) : valueOfAll items = items.map value := by
  induction items with
  | nil => rfl
  | cons item rest inductionHypothesis => simp [valueOfAll, inductionHypothesis]

/-- A quote or a parenthesis that is open. -/
inductive Frame where
  /-- A quote before its form. -/
  | quote
  /-- A parenthesis; the forms read after it are in reverse order. -/
  | row (items : List Derivation)

namespace Frame

/-- The tokens of a frame. -/
def tokens : Frame → List Token
  | .quote => [.quote]
  | .row items => .lparen :: tokensOfAll items.reverse

/-- The tokens of frames, the innermost of which comes first. -/
def tokensOfAll : List Frame → List Token
  | [] => []
  | frame :: outer => tokensOfAll outer ++ frame.tokens

/-- The open form that the reader keeps for a frame. -/
def opened : Frame → OpenForm
  | .quote => .quote
  | .row items => .row (items.map value)

end Frame

/-- How far a derivation has come. -/
inductive Progress where
  /-- Some frames are open, innermost first. -/
  | unfinished (frames : List Frame)
  /-- The derivation is complete. -/
  | finished (tree : Derivation)

namespace Progress

/-- The tokens that have been taken. -/
def tokens : Progress → List Token
  | .unfinished frames => Frame.tokensOfAll frames
  | .finished tree => tree.tokens

/-- Where the reader stands after them. -/
def reading : Progress → Reading
  | .unfinished frames => .unfinished (frames.map Frame.opened)
  | .finished tree => .finished tree.value

/-- Gives a complete form to the innermost frame. -/
def place (tree : Derivation) : List Frame → Progress
  | [] => .finished tree
  | .quote :: outer => place (.quote tree) outer
  | .row items :: outer => .unfinished (.row (tree :: items) :: outer)

/-- The reader gives a complete form to the innermost open one in the same way. -/
theorem reading_place (tree : Derivation) (frames : List Frame) :
    (place tree frames).reading = Reading.place tree.value (frames.map Frame.opened) := by
  induction frames generalizing tree with
  | nil => rfl
  | cons frame outer inductionHypothesis =>
    cases frame with
    | quote => exact inductionHypothesis (.quote tree)
    | row items => rfl

/-- Giving a form to a frame takes its tokens. -/
theorem tokens_place (tree : Derivation) (frames : List Frame) :
    (place tree frames).tokens = Frame.tokensOfAll frames ++ tree.tokens := by
  induction frames generalizing tree with
  | nil => rfl
  | cons frame outer inductionHypothesis =>
    cases frame with
    | quote =>
      rw [place, inductionHypothesis, Derivation.tokens, Frame.tokensOfAll, Frame.tokens,
        List.append_assoc, List.singleton_append]
    | row items =>
      simp [place, tokens, Frame.tokensOfAll, Frame.tokens, tokensOfAll_append,
        Derivation.tokensOfAll]

end Progress

/-! ## What is read is derived -/

section

variable {limit : Nat} {frames : List Frame} {token : Token}

/-- A token that the reader takes carries the derivation on. -/
theorem exists_of_feed {reading : Reading}
    (isFed : Reading.feed limit (frames.map Frame.opened) token = .ok reading) :
    ∃ progress : Progress, progress.reading = reading ∧
      progress.tokens = Frame.tokensOfAll frames ++ [token] := by
  have entering (inner : Frame) (isToken : inner.tokens = [token])
      (entered : Reading.enter limit (frames.map Frame.opened) inner.opened = .ok reading) :
      ∃ progress : Progress, progress.reading = reading ∧
        progress.tokens = Frame.tokensOfAll frames ++ [token] := by
    unfold Reading.enter at entered
    split at entered <;> cases entered
    exact ⟨.unfinished (inner :: frames), rfl, by
      rw [Progress.tokens, Frame.tokensOfAll, isToken]⟩
  cases token with
  | ident text =>
    cases isFed
    exact ⟨.place (.ident text) frames, Progress.reading_place _ _, Progress.tokens_place _ _⟩
  | lparen => exact entering (.row []) rfl isFed
  | quote => exact entering .quote rfl isFed
  | rparen =>
    match frames, isFed with
    | .row items :: outer, isFed =>
      cases isFed
      refine ⟨.place (.row items.reverse) outer, ?_, ?_⟩
      · rw [Progress.reading_place, value, valueOfAll_eq_map, List.map_reverse]
      · rw [Progress.tokens_place, tokens, Frame.tokensOfAll, Frame.tokens, List.append_assoc,
          List.cons_append]

/-- The form that is read, and the tokens after it, are those of a derivation. -/
theorem exists_of_readForm_ok (frames : List Frame) {tokens rest : List Token} {form : Expr}
    (isRead : Reading.readForm limit (frames.map Frame.opened) tokens = .ok (form, rest)) :
    ∃ tree : Derivation, tree.value = form ∧
      Frame.tokensOfAll frames ++ tokens = tree.tokens ++ rest := by
  -- the induction carries along the frames of the tokens taken so far
  induction tokens generalizing frames with
  | nil => cases isRead
  | cons token others inductionHypothesis =>
    unfold Reading.readForm at isRead
    cases isFed : Reading.feed limit (frames.map Frame.opened) token with
    | error fault => simp [isFed] at isRead
    | ok reading =>
      obtain ⟨progress, rfl, taken⟩ := exists_of_feed isFed
      rw [List.append_cons, ← taken]
      cases progress with
      | finished tree =>
        simp only [isFed, Progress.reading, Except.ok.injEq, Prod.mk.injEq] at isRead
        obtain ⟨rfl, rfl⟩ := isRead
        exact ⟨tree, rfl, rfl⟩
      | unfinished inner =>
        exact inductionHypothesis inner (by simpa [isFed, Progress.reading] using isRead)

/-- A token is refused because too many forms are open, or because it is out of place. -/
theorem feed_error_cases {fault : ReadError}
    (refused : Reading.feed limit (frames.map Frame.opened) token = .error fault) :
    (fault = .nestingTooDeep ∧ limit ≤ frames.length ∧ ∃ inner : Frame, inner.tokens = [token]) ∨
    fault = .unexpectedToken token := by
  have entering (inner : Frame) (isToken : inner.tokens = [token])
      (refused : Reading.enter limit (frames.map Frame.opened) inner.opened = .error fault) :
      fault = .nestingTooDeep ∧ limit ≤ frames.length ∧
        ∃ inner : Frame, inner.tokens = [token] := by
    unfold Reading.enter at refused
    split at refused <;> cases refused
    next tooMany => exact ⟨rfl, by simpa using tooMany, inner, isToken⟩
  cases token with
  | ident text => cases refused
  | lparen => exact .inl (entering (.row []) rfl refused)
  | quote => exact .inl (entering .quote rfl refused)
  | rparen =>
    match frames, refused with
    | [], refused
    | .quote :: outer, refused =>
      cases refused
      exact .inr rfl

/-- Where reading fails, the tokens end in open frames, or more frames are open than the reader
holds, or a token is out of place. -/
theorem readForm_error_cases (frames : List Frame) {tokens : List Token} {fault : ReadError}
    (failed : Reading.readForm limit (frames.map Frame.opened) tokens = .error fault) :
    (∃ inner, Frame.tokensOfAll inner = Frame.tokensOfAll frames ++ tokens ∧
      fault = Reading.missing (inner.map Frame.opened)) ∨
    (fault = .nestingTooDeep ∧ ∃ inner,
      Frame.tokensOfAll inner <+: Frame.tokensOfAll frames ++ tokens ∧ limit < inner.length) ∨
    ∃ token, fault = .unexpectedToken token := by
  induction tokens generalizing frames with
  | nil =>
    cases failed
    exact .inl ⟨frames, (List.append_nil _).symm, rfl⟩
  | cons token others inductionHypothesis =>
    unfold Reading.readForm at failed
    cases isFed : Reading.feed limit (frames.map Frame.opened) token with
    | error cause =>
      simp only [isFed, Except.error.injEq] at failed
      subst failed
      rcases feed_error_cases isFed with ⟨rfl, tooMany, inner, isToken⟩ | rfl
      · refine .inr (.inl ⟨rfl, inner :: frames, ⟨others, ?_⟩, by rw [List.length_cons]; omega⟩)
        rw [Frame.tokensOfAll, isToken, List.append_assoc, List.singleton_append]
      · exact .inr (.inr ⟨token, rfl⟩)
    | ok reading =>
      obtain ⟨progress, rfl, taken⟩ := exists_of_feed isFed
      cases progress with
      | finished tree => simp [isFed, Progress.reading] at failed
      | unfinished inner =>
        rw [List.append_cons, ← taken]
        exact inductionHypothesis inner (by simpa [isFed, Progress.reading] using failed)

end

/-- Open frames can be closed around a form. -/
theorem exists_closing (tree : Derivation) (frames : List Frame) :
    ∃ (more : List Token) (whole : Derivation),
      whole.tokens = Frame.tokensOfAll frames ++ (tree.tokens ++ more) := by
  induction frames generalizing tree with
  | nil => exact ⟨[], tree, by simp [Frame.tokensOfAll]⟩
  | cons frame outer inductionHypothesis =>
    cases frame with
    | quote =>
      obtain ⟨more, whole, isWhole⟩ := inductionHypothesis (.quote tree)
      refine ⟨more, whole, ?_⟩
      rw [isWhole, tokens, Frame.tokensOfAll, Frame.tokens, List.append_assoc,
        List.singleton_append, List.cons_append]
    | row items =>
      obtain ⟨more, whole, isWhole⟩ := inductionHypothesis (.row (items.reverse ++ [tree]))
      refine ⟨.rparen :: more, whole, ?_⟩
      simp [isWhole, tokens, Frame.tokensOfAll, Frame.tokens, tokensOfAll_append,
        Derivation.tokensOfAll]

/-! ## What is derived is read -/

end Derivation

namespace Reading

/-- Goes on with more tokens from where the reader stands. -/
def goOn (limit : Nat) : Reading → List Token → Except ReadError (Expr × List Token)
  | .unfinished opened, rest => readForm limit opened rest
  | .finished form, rest => .ok (form, rest)

variable {limit : Nat}

/-- An opening token is read if there is room for one more open form. -/
theorem readForm_opening {opened : List OpenForm} {token : Token} {inner : OpenForm}
    (opens : feed limit opened token = enter limit opened inner) (rest : List Token) :
    readForm limit opened (token :: rest) =
      if opened.length < limit then readForm limit (inner :: opened) rest
      else .error .nestingTooDeep := by
  rw [readForm, opens, enter]
  by_cases enough : opened.length < limit <;> simp [enough]

mutual
/-- The reader takes the tokens of a form as its value, if it has room for it. -/
theorem readForm_tokens (opened : List OpenForm) (tree : Derivation)
    (fits : opened.length ≤ limit) (rest : List Token) :
    readForm limit opened (tree.tokens ++ rest) =
      if opened.length + tree.nesting ≤ limit then (place tree.value opened).goOn limit rest
      else .error .nestingTooDeep := by
  match tree with
  | .ident text =>
    rw [Derivation.nesting, if_pos (by omega), Derivation.tokens, Derivation.value,
      List.singleton_append, readForm, feed]
    cases place (.atom text) opened <;> rfl
  | .quote inner =>
    rw [Derivation.tokens, Derivation.nesting, Derivation.value, List.cons_append,
      readForm_opening rfl]
    -- the quote takes one place among the open forms
    by_cases enough : opened.length < limit
    · rw [if_pos enough, readForm_tokens (.quote :: opened) inner enough rest, List.length_cons,
        Nat.add_assoc, Nat.add_comm 1, place]
    · rw [if_neg enough, if_neg (by omega)]
  | .row items =>
    rw [Derivation.tokens, Derivation.nesting, Derivation.value, List.cons_append,
      List.append_assoc, readForm_opening rfl]
    -- and so does the parenthesis, in which the items are read from none on
    by_cases enough : opened.length < limit
    · rw [if_pos enough, readForm_tokensOfAll items [] enough, List.append_nil, Nat.add_assoc,
        Nat.add_comm 1]
      simp only [List.singleton_append, readForm, feed, List.reverse_reverse]
      cases place (.call (Derivation.valueOfAll items)) opened <;> rfl
    · rw [if_neg enough, if_neg (by omega)]

/-- The reader takes the tokens of a row of forms as their values, if it has room for them. -/
theorem readForm_tokensOfAll {opened : List OpenForm} (items : List Derivation) (done : List Expr)
    (fits : opened.length + 1 ≤ limit) (rest : List Token) :
    readForm limit (.row done :: opened) (Derivation.tokensOfAll items ++ rest) =
      if opened.length + 1 + Derivation.nestingOfAll items ≤ limit then
        readForm limit (.row ((Derivation.valueOfAll items).reverse ++ done) :: opened) rest
      else .error .nestingTooDeep := by
  match items with
  | [] => rw [Derivation.nestingOfAll, if_pos fits]; rfl
  | item :: others =>
    rw [Derivation.tokensOfAll, Derivation.nestingOfAll, Derivation.valueOfAll, List.append_assoc,
      readForm_tokens (.row done :: opened) item fits, List.length_cons, List.reverse_cons,
      List.append_assoc, List.singleton_append]
    by_cases enough : opened.length + 1 + item.nesting ≤ limit
    · rw [if_pos enough, place, goOn, readForm_tokensOfAll others (item.value :: done) fits]
      congr 1
      rw [eq_iff_iff]
      omega
    · rw [if_neg enough, if_neg (by omega)]
end

/-- From nothing the tokens of a form are read as its value, if the reader has room for it. -/
theorem readForm_tokens_eq (limit : Nat) (tree : Derivation) :
    readForm limit [] tree.tokens =
      if tree.nesting ≤ limit then .ok (tree.value, []) else .error .nestingTooDeep := by
  have isRead := readForm_tokens [] tree (Nat.zero_le limit) []
  rwa [List.append_nil, List.length_nil, Nat.zero_add] at isRead

/-- The reader takes the tokens of a frame as an open form, unless they are too many for it. -/
theorem readForm_frame (limit : Nat) (opened : List OpenForm) (frame : Derivation.Frame)
    (rest : List Token) :
    (opened.length < limit ∧
      readForm limit opened (frame.tokens ++ rest) =
        readForm limit (frame.opened :: opened) rest) ∨
    readForm limit opened (frame.tokens ++ rest) = .error .nestingTooDeep := by
  by_cases enough : opened.length < limit
  · cases frame with
    | quote =>
      rw [Derivation.Frame.tokens, List.singleton_append, readForm_opening rfl, if_pos enough]
      exact .inl ⟨enough, rfl⟩
    | row items =>
      rw [Derivation.Frame.tokens, List.cons_append, readForm_opening rfl, if_pos enough,
        readForm_tokensOfAll items.reverse [] enough]
      split
      · refine .inl ⟨enough, ?_⟩
        rw [List.append_nil, Derivation.valueOfAll_eq_map, ← List.map_reverse, List.reverse_reverse]
        rfl
      · exact .inr rfl
  · refine .inr ?_
    cases frame with
    | quote =>
      rw [Derivation.Frame.tokens, List.singleton_append, readForm_opening rfl, if_neg enough]
    | row items =>
      rw [Derivation.Frame.tokens, List.cons_append, readForm_opening rfl, if_neg enough]

/-- The reader takes the tokens of frames as open forms, unless they are too many for it. -/
theorem readForm_frames (limit : Nat) (frames : List Derivation.Frame) (rest : List Token) :
    (frames.length ≤ limit ∧
      readForm limit [] (Derivation.Frame.tokensOfAll frames ++ rest) =
        readForm limit (frames.map Derivation.Frame.opened) rest) ∨
    readForm limit [] (Derivation.Frame.tokensOfAll frames ++ rest) = .error .nestingTooDeep := by
  induction frames generalizing rest with
  | nil => exact .inl ⟨Nat.zero_le _, rfl⟩
  | cons frame outer inductionHypothesis =>
    rw [Derivation.Frame.tokensOfAll, List.append_assoc]
    rcases inductionHypothesis (frame.tokens ++ rest) with ⟨-, outerRead⟩ | tooDeep
    · rw [outerRead]
      rcases readForm_frame limit (outer.map Derivation.Frame.opened) frame rest with
        ⟨enough, frameRead⟩ | tooDeep
      · rw [List.length_map] at enough
        exact .inl ⟨enough, frameRead⟩
      · exact .inr tooDeep
    · exact .inr tooDeep

end Reading

end LispShell
