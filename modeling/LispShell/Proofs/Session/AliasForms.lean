import LispShell.Proofs.Session.Replacements

/-! # Ways to write an alias
The words that an alias stands for may be written as a call, as a list, one by one or as one text.
What is filed differs, for the first three give a text a word and the last gives one text of all.
But the filed texts are only ever scanned, and there they are the same words. -/

namespace LispShell

/-! ## Tables that expand alike -/

/-- Whether two tables expand all tokens alike. -/
def AliasTable.Agree (aliases others : AliasTable) : Prop :=
  ∀ afterParen token,
    Token.expansion aliases afterParen token = Token.expansion others afterParen token

namespace Token

variable {aliases others : AliasTable} (agree : aliases.Agree others)
include agree

/-- Tables that expand all tokens alike do so in a row. -/
theorem expandFrom_congr (afterParen : Bool) (tokens : List Token) :
    expandFrom aliases afterParen tokens = expandFrom others afterParen tokens := by
  induction tokens generalizing afterParen with
  | nil => rfl
  | cons token rest inductionHypothesis =>
    rw [expandFrom, expandFrom, agree, inductionHypothesis]

/-- Tables that expand all tokens alike do so in a whole line. -/
theorem expand_congr (tokens : List Token) : expand aliases tokens = expand others tokens :=
  expandFrom_congr agree false tokens

/-- Tables that expand all tokens alike give lines the same tokens, or the same fault. -/
theorem ofLine_congr (source : String) : ofLine aliases source = ofLine others source := by
  simp only [ofLine, expand_congr agree]

/-- Tables that expand all tokens alike give programs the same tokens, up to the same fault. -/
theorem ofProgram_congr (source : String) : ofProgram aliases source = ofProgram others source := by
  simp only [ofProgram, expand_congr agree]

end Token

/-- Tables that differ in the texts of one alias alone expand all tokens alike, if these texts scan
alike. -/
theorem AliasTable.agree_insert (aliases : AliasTable) (name : String) {texts others : List String}
    (sameScan : Token.scanAll texts = Token.scanAll others) :
    Agree (aliases.insert name texts) (aliases.insert name others) := by
  intro afterParen token
  -- the texts of the alias are read where its name is at the head, and nowhere else
  by_cases isHead : afterParen = true ∧ token = .ident name
  · obtain ⟨rfl, rfl⟩ := isHead
    rw [Token.expansion_insert_self, Token.expansion_insert_self, sameScan]
  · have notHead : afterParen = true → token ≠ .ident name := fun isAfterParen isName =>
      isHead ⟨isAfterParen, isName⟩
    rw [Token.expansion_insert_of_ne texts notHead, Token.expansion_insert_of_ne others notHead]

/-! ## Words -/

/-- Whether a text is a bare word: it is not empty and has no blanks and none of `( ) ' " ; \`. -/
structure IsWord (text : String) : Prop where
  /-- It is not empty. -/
  ne_empty : text ≠ ""
  /-- All its characters stand for themselves. -/
  areWordChars : ∀ c ∈ text.toList, Token.isWordChar c = true

/-- No word needs quotes. -/
theorem IsWord.noBlank {word : String} (isWord : IsWord word) :
    word.toList.any Text.isBlank = false := by
  rw [List.any_eq_false]
  intro c isIn isBlank
  have isWordChar := isWord.areWordChars c isIn
  simp [Token.isWordChar, isBlank] at isWordChar

namespace Expr

/-- A word is printed as it is. -/
theorem render_word {word : String} (isWord : IsWord word) : (atom word).render = word := by
  simp [render, renderAtom, isWord.ne_empty, isWord.noBlank]

/-- A word is a plain atom. -/
theorem isPlain_word {word : String} (isWord : IsWord word) : isPlain word = true := by
  have noQuotes : ¬(word == "" || word.toList.any Text.isBlank) = true := by
    simp [isWord.ne_empty, isWord.noBlank, -List.any_eq_true]
  rw [isPlain, if_neg noQuotes]
  exact List.all_eq_true.mpr isWord.areWordChars

/-- The atoms of words have one level. -/
theorem heightOfAll_words (words : List String) : heightOfAll (words.map .atom) ≤ 1 := by
  induction words with
  | nil => exact Nat.zero_le 1
  | cons word rest inductionHypothesis => exact Nat.max_le.mpr ⟨le_rfl, inductionHypothesis⟩

section Words

variable {words : List String} (areWords : ∀ word ∈ words, IsWord word)
include areWords

/-- Words are printed as they are, all in a row. -/
theorem map_render_words : (words.map atom).map render = words := by
  calc (words.map atom).map render
      = words.map fun word => (atom word).render := List.map_map
    _ = words.map id := List.map_congr_left fun word isIn => render_word (areWords word isIn)
    _ = words := List.map_id words

/-- The atoms of words are plain, all in a row. -/
theorem arePlain_words : ∀ text ∈ atomsOfAll (words.map atom), isPlain text = true := by
  intro text isIn
  rw [atomsOfAll_eq_flatMap, List.flatMap_map] at isIn
  obtain ⟨word, isWord, isAtom⟩ := List.mem_flatMap.mp isIn
  obtain rfl := List.mem_singleton.mp isAtom
  exact isPlain_word (areWords text isWord)

end Words

end Expr

/-- The forms of words are their tokens. -/
theorem Derivation.tokensOfAll_ofAll_words (words : List String) :
    tokensOfAll (ofAll (words.map .atom)) = words.map .ident := by
  induction words with
  | nil => rfl
  | cons word rest inductionHypothesis =>
    rw [List.map_cons, ofAll, tokensOfAll, inductionHypothesis]
    rfl

namespace Token

variable {words : List String} (areWords : ∀ word ∈ words, IsWord word)
include areWords

/-- Words, each a text, scan as themselves. -/
theorem scanAll_words : scanAll words = ⟨words.map .ident, none⟩ := by
  have isScan := scanAll_render (Expr.arePlain_words areWords)
  rwa [Expr.map_render_words areWords, Derivation.tokensOfAll_ofAll_words] at isScan

/-- Words in one text, with blanks in between, scan as themselves. -/
theorem scan_intercalate_words : scan (" ".intercalate words) = ⟨words.map .ident, none⟩ := by
  have print : ∀ item ∈ words.map Expr.atom, item.PrintsTokens := fun item isIn =>
    Expr.printsTokens (Expr.forall_atoms_of_mem (Expr.arePlain_words areWords) isIn)
  have isEnded : EndWords [] := by simp [EndWords]
  have isScan := Expr.scanFrom_intercalate " " (by decide) rfl print isEnded
  rw [Expr.renderAll_eq_map, Expr.map_render_words areWords, List.append_nil,
    Derivation.tokensOfAll_ofAll_words] at isScan
  rw [scan, isScan]
  simp [scanFrom, ScanMode.finish, ScanMode.endWord, Scan.prepend]

end Token

/-! ## Writing an alias -/

/-- The ways to write the words that an alias stands for. -/
inductive IsAliasForm (words : List String) : List Expr → Prop where
  /-- As a call. -/
  | call : IsAliasForm words [.call (words.map .atom)]
  /-- As a list. -/
  | list : IsAliasForm words [.list (words.map .atom)]
  /-- One by one. -/
  | atoms : IsAliasForm words (words.map .atom)
  /-- As one text. -/
  | joined : IsAliasForm words [.atom (" ".intercalate words)]

namespace IsAliasForm

variable {words : List String} {form : List Expr} (isForm : IsAliasForm words form)
include isForm

/-- Where there is a word, there is something to file. -/
theorem ne_nil (isNonempty : words ≠ []) : form ≠ [] := by
  cases isForm with
  | call => exact List.cons_ne_nil _ _
  | list => exact List.cons_ne_nil _ _
  | atoms => simpa using isNonempty
  | joined => exact List.cons_ne_nil _ _

/-- Words are not high, however they are written. -/
theorem heightOfAll_le : Expr.heightOfAll form ≤ 2 := by
  have areLow := Expr.heightOfAll_words words
  cases isForm with
  | call => simpa [Expr.heightOfAll, Expr.height] using areLow
  | list => simpa [Expr.heightOfAll, Expr.height] using areLow
  | atoms => exact areLow.trans (Nat.le_succ 1)
  | joined => simp [Expr.heightOfAll, Expr.height]

/-- Words scan as themselves, however they are written. -/
theorem scanAll_textsOf (areWords : ∀ word ∈ words, IsWord word) :
    Token.scanAll (form.flatMap Definition.textsOf) = ⟨words.map .ident, none⟩ := by
  cases isForm with
  | call =>
    rw [List.flatMap_singleton, Definition.textsOf, Expr.map_render_words areWords]
    exact Token.scanAll_words areWords
  | list =>
    rw [List.flatMap_singleton, Definition.textsOf, Expr.map_render_words areWords]
    exact Token.scanAll_words areWords
  | atoms =>
    have areTexts : (words.map Expr.atom).flatMap Definition.textsOf = words := by
      rw [List.flatMap_map]
      exact List.flatMap_singleton' words
    rw [areTexts]
    exact Token.scanAll_words areWords
  | joined =>
    rw [List.flatMap_singleton, Definition.textsOf, Token.scanAll, Token.scanAll, Scan.append_nil]
    exact Token.scan_intercalate_words areWords

end IsAliasForm

namespace Definition

section Forms

variable {words : List String} (isNonempty : words ≠ []) {operands : Operands}

section Form

variable {form : List Expr} (isForm : IsAliasForm words form)
include isNonempty isForm

/-- The empty text is no name of an alias. -/
theorem exec_defineAlias_empty (course : Course) :
    (defineAlias operands (.atom "" :: form)).exec course =
      (.error (.fault (.notASymbol .defineAlias "\"\"")), course) := by
  obtain ⟨first, others, rfl⟩ := List.exists_cons_of_ne_nil (isForm.ne_nil isNonempty)
  rw [defineAlias]
  exact Run.exec_bind_error course rfl

/-- With room to print a word, words are filed under any other name. -/
theorem exec_defineAlias_words (hasRoom : 0 < operands.room) {name : String} (isName : name ≠ "")
    (course : Course) :
    (defineAlias operands (.atom name :: form)).exec course =
      (.ok (.atom "created alias"), course.withAlias name (form.flatMap textsOf)) :=
  exec_defineAlias (isForm.ne_nil isNonempty)
    (isForm.heightOfAll_le.trans (Nat.succ_le_succ hasRoom)) isName course

/-- Without room to print a word, they are filed or the definition fails. -/
theorem exec_defineAlias_words_of_noRoom (noRoom : operands.room = 0) {name : String}
    (isName : name ≠ "") (course : Course) :
    (defineAlias operands (.atom name :: form)).exec course =
        (.ok (.atom "created alias"), course.withAlias name (form.flatMap textsOf)) ∨
      (defineAlias operands (.atom name :: form)).exec course =
        (.error (.fault .evaluationTooDeep), course) := by
  obtain ⟨room, value⟩ := operands
  obtain rfl : room = 0 := noRoom
  obtain ⟨word, others, rfl⟩ := List.exists_cons_of_ne_nil isNonempty
  have isSymbol : symbol ⟨0, value⟩ .defineAlias (.atom name) = pure name := by
    simp [symbol, isName]
  -- atoms are filed without being printed, but the items of a call or of a list are not
  cases isForm with
  | call =>
    rw [defineAlias, isSymbol]
    exact .inr rfl
  | list =>
    rw [defineAlias, isSymbol]
    exact .inr rfl
  | atoms =>
    exact .inl (exec_defineAlias (by simp) (Expr.heightOfAll_words _) isName course)
  | joined => exact .inl (exec_defineAlias (List.cons_ne_nil _ _) le_rfl isName course)

/-- Words are filed or the definition fails and changes nothing. -/
theorem exec_defineAlias_words_cases (name : String) (course : Course) :
    (defineAlias operands (.atom name :: form)).exec course =
        (.ok (.atom "created alias"), course.withAlias name (form.flatMap textsOf)) ∨
      ∃ cause, (defineAlias operands (.atom name :: form)).exec course =
        (.error (.fault cause), course) := by
  by_cases isName : name = ""
  · subst isName
    exact .inr ⟨_, exec_defineAlias_empty isNonempty isForm course⟩
  · rcases Nat.eq_zero_or_pos operands.room with noRoom | hasRoom
    · exact (exec_defineAlias_words_of_noRoom isNonempty isForm noRoom isName course).imp_right
        fun failed => ⟨_, failed⟩
    · exact .inl (exec_defineAlias_words isNonempty isForm hasRoom isName course)

end Form

variable (areWords : ∀ word ∈ words, IsWord word) (name : String) (course : Course)
  {form other : List Expr} (isForm : IsAliasForm words form) (isOther : IsAliasForm words other)
include isNonempty isForm isOther

/-- With room to print a word, definitions of the same words end alike. -/
theorem exec_defineAlias_fst_eq (hasRoom : 0 < operands.room) :
    ((defineAlias operands (.atom name :: form)).exec course).1 =
      ((defineAlias operands (.atom name :: other)).exec course).1 := by
  by_cases isName : name = ""
  · subst isName
    rw [exec_defineAlias_empty isNonempty isForm, exec_defineAlias_empty isNonempty isOther]
  · rw [exec_defineAlias_words isNonempty isForm hasRoom isName,
      exec_defineAlias_words isNonempty isOther hasRoom isName]

include areWords

/-- Definitions of the same words that end alike leave tables that expand all tokens alike. -/
theorem agree_of_exec_defineAlias_fst_eq
    (same : ((defineAlias operands (.atom name :: form)).exec course).1 =
      ((defineAlias operands (.atom name :: other)).exec course).1) :
    AliasTable.Agree
      ((defineAlias operands (.atom name :: form)).exec course).2.shell.session.aliases
      ((defineAlias operands (.atom name :: other)).exec course).2.shell.session.aliases := by
  -- both are filed or both fail, for a definition that fails ends like none that is filed
  rcases exec_defineAlias_words_cases isNonempty isForm name course with filed | ⟨cause, failed⟩
  · rcases exec_defineAlias_words_cases isNonempty isOther name course with
      otherFiled | ⟨cause, otherFailed⟩
    · rw [filed, otherFiled]
      exact AliasTable.agree_insert course.shell.session.aliases name
        ((isForm.scanAll_textsOf areWords).trans (isOther.scanAll_textsOf areWords).symm)
    · rw [filed, otherFailed] at same
      cases same
  · rcases exec_defineAlias_words_cases isNonempty isOther name course with
      otherFiled | ⟨cause, otherFailed⟩
    · rw [failed, otherFiled] at same
      cases same
    · rw [failed, otherFailed]
      exact fun _ _ => rfl

end Forms

/-- The ways to write an alias are equivalent. However the words are written that a name stands for,
definitions that end alike leave tables under which every line and every program have the same
tokens, or the same fault, and with room to print a word all of them end alike. They fail for the
empty name only. Otherwise the name, at the head of a call, stands for the words from then on, and
every other name for what it did before. -/
theorem alias_forms_are_equivalent {words : List String} (isNonempty : words ≠ [])
    (areWords : ∀ word ∈ words, IsWord word) {form other : List Expr}
    (isForm : IsAliasForm words form) (isOther : IsAliasForm words other) (operands : Operands)
    (name : String) (course : Course) :
    let ended := (defineAlias operands (.atom name :: form)).exec course
    let otherEnded := (defineAlias operands (.atom name :: other)).exec course
    let aliases := ended.2.shell.session.aliases
    let otherAliases := otherEnded.2.shell.session.aliases
    (ended.1 = otherEnded.1 →
      (∀ source, Token.ofLine aliases source = Token.ofLine otherAliases source) ∧
      ∀ source, Token.ofProgram aliases source = Token.ofProgram otherAliases source) ∧
    (0 < operands.room → ended.1 = otherEnded.1) ∧
    (0 < operands.room → name ≠ "" → ended.1 = .ok (.atom "created alias") ∧
      Token.expansion aliases true (.ident name) = ⟨words.map .ident, none⟩ ∧
      ∀ different ≠ name,
        aliases.find? different = course.shell.session.aliases.find? different) := by
  intro ended otherEnded aliases otherAliases
  refine ⟨fun same => ?agreement, exec_defineAlias_fst_eq isNonempty name course isForm isOther,
    fun hasRoom isName => ?meaning⟩
  case agreement =>
    have agree := agree_of_exec_defineAlias_fst_eq isNonempty areWords name course isForm isOther same
    exact ⟨Token.ofLine_congr agree, Token.ofProgram_congr agree⟩
  case meaning =>
    have filed : ended = _ := exec_defineAlias_words isNonempty isForm hasRoom isName course
    have isTable : aliases = course.shell.session.aliases.insert name (form.flatMap textsOf) :=
      congrArg (fun ended => ended.2.shell.session.aliases) filed
    refine ⟨congrArg Prod.fst filed, ?_, fun different isDifferent => ?_⟩
    · rw [isTable, Token.expansion_insert_self, isForm.scanAll_textsOf areWords]
    · rw [isTable, Table.find?_insert, if_neg isDifferent]

/-- In a new session `(alias ll (ls -l))` and `(alias ll "ls -l")` file different texts, and all
lines have the same tokens from then on. -/
theorem alias_forms_of_listing :
    let asCall := (defineAlias ⟨1, pure⟩ [.atom "ll", .call [.atom "ls", .atom "-l"]]).exec .fresh
    let asText := (defineAlias ⟨1, pure⟩ [.atom "ll", .atom "ls -l"]).exec .fresh
    (["ls", "-l"] ≠ [] ∧ ∀ word ∈ ["ls", "-l"], IsWord word) ∧
    asCall.2.shell.session.aliases.find? "ll" = some ["ls", "-l"] ∧
    asText.2.shell.session.aliases.find? "ll" = some ["ls -l"] ∧
    ∀ source, Token.ofLine asCall.2.shell.session.aliases source =
      Token.ofLine asText.2.shell.session.aliases source := by
  intro asCall asText
  have isNonempty : ["ls", "-l"] ≠ [] := by decide
  have areWords : ∀ word ∈ ["ls", "-l"], IsWord word := by
    simp only [List.forall_mem_cons]
    exact ⟨⟨by decide, List.all_eq_true.mp rfl⟩, ⟨by decide, List.all_eq_true.mp rfl⟩, by simp⟩
  obtain ⟨agree, alike, -⟩ :=
    alias_forms_are_equivalent isNonempty areWords .call .joined ⟨1, pure⟩ "ll" .fresh
  exact ⟨⟨isNonempty, areWords⟩, rfl, rfl, (agree (alike Nat.one_pos)).1⟩

end Definition

end LispShell
