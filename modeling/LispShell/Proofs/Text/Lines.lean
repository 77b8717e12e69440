import LispShell.Proofs.Text.Pieces

/-! # The lines of an output
Splitting takes an output apart into the lines that it was written from, however each of them was
ended and whether or not the last one was. And joining the lines of any output gives it back but for
the line feed at its end and the carriage returns that belong to the ends of its lines. -/

namespace LispShell.Text

/-! ## Line ends -/

/-- A carriage return at the end is dropped. -/
@[simp] theorem dropReturn_append_return (line : List Char) : dropReturn (line ++ ['\r']) = line := by
  simp [dropReturn]

/-- Without a carriage return at its end a line stays as it is. -/
theorem dropReturn_of_ne {line : List Char} (noReturn : line.getLast? ≠ some '\r') :
    dropReturn line = line :=
  if_neg noReturn

/-- Only the last character of a line is looked at. -/
theorem dropReturn_cons_cons (c next : Char) (rest : List Char) :
    dropReturn (c :: next :: rest) = c :: dropReturn (next :: rest) := by
  unfold dropReturn
  rw [List.getLast?_cons_cons]
  split
  · rfl
  · rfl

/-- A line holds no character that it did not hold before its carriage return was dropped. -/
theorem dropReturn_subset (line : List Char) : dropReturn line ⊆ line := by
  unfold dropReturn
  split
  · exact List.dropLast_subset line
  · exact List.Subset.refl line

/-- An empty last piece is dropped. -/
@[simp] theorem dropEmptyLast_append_nil (pieces : List (List Char)) :
    dropEmptyLast (pieces ++ [[]]) = pieces := by
  simp [dropEmptyLast]

/-- A last piece with characters is kept. -/
theorem dropEmptyLast_append_of_ne {last : List Char} (notEmpty : last ≠ [])
    (pieces : List (List Char)) : dropEmptyLast (pieces ++ [last]) = pieces ++ [last] := by
  simp [dropEmptyLast, notEmpty]

/-- No piece is new. -/
theorem dropEmptyLast_subset (pieces : List (List Char)) : dropEmptyLast pieces ⊆ pieces := by
  unfold dropEmptyLast
  split
  · exact List.dropLast_subset pieces
  · exact List.Subset.refl pieces

/-! ## Lines that are written -/

/-- A line by itself: it has no line feed and does not end in a carriage return. -/
structure Line where
  /-- The text of the line. -/
  text : String
  /-- It has no line feed. -/
  noFeed : '\n' ∉ text.toList
  /-- It does not end in a carriage return. -/
  noReturn : text.toList.getLast? ≠ some '\r'

/-- The two ways to end a line. -/
inductive LineEnd where
  /-- A line feed. -/
  | feed
  /-- A carriage return and a line feed. -/
  | returnFeed
  deriving Repr, DecidableEq

/-- What a line end puts before its line feed. -/
def LineEnd.beforeFeed : LineEnd → List Char
  | .feed => []
  | .returnFeed => ['\r']

/-- The characters of lines, each followed by its end. -/
def writtenChars (lines : List (Line × LineEnd)) : List Char :=
  lines.flatMap fun line => line.1.text.toList ++ line.2.beforeFeed ++ ['\n']

/-- The text of lines, each followed by its end. -/
def written (lines : List (Line × LineEnd)) : String :=
  String.ofList (writtenChars lines)

/-- The pieces of written lines are the lines with what their ends put before the line feeds, and
the pieces of what follows. -/
theorem splitOn_writtenChars (lines : List (Line × LineEnd)) (rest : List Char) :
    (writtenChars lines ++ rest).splitOn '\n' =
      lines.map (fun line => line.1.text.toList ++ line.2.beforeFeed) ++ rest.splitOn '\n' := by
  induction lines with
  | nil => rfl
  | cons line lines inductionHypothesis =>
    obtain ⟨line, lineEnd⟩ := line
    have noFeed : '\n' ∉ line.text.toList ++ lineEnd.beforeFeed := by
      rw [List.mem_append, not_or]
      refine ⟨line.noFeed, ?_⟩
      cases lineEnd with
      | feed => decide
      | returnFeed => decide
    have isSplit := List.splitOn_append_cons_self_of_not_mem noFeed (writtenChars lines ++ rest)
    rw [inductionHypothesis] at isSplit
    simpa [writtenChars] using isSplit

/-- Dropping the carriage return of a line end leaves the line. -/
theorem dropReturn_append_beforeFeed (line : Line) (lineEnd : LineEnd) :
    dropReturn (line.text.toList ++ lineEnd.beforeFeed) = line.text.toList := by
  cases lineEnd with
  | feed =>
    rw [LineEnd.beforeFeed, List.append_nil]
    exact dropReturn_of_ne line.noReturn
  | returnFeed => exact dropReturn_append_return _

/-- The lines of pieces that are written lines are these lines. -/
theorem map_dropReturn_written (lines : List (Line × LineEnd)) :
    (lines.map fun line => line.1.text.toList ++ line.2.beforeFeed).map
        (String.ofList ∘ dropReturn) =
      lines.map (·.1.text) := by
  rw [List.map_map]
  refine List.map_congr_left fun line _ => ?_
  simp [dropReturn_append_beforeFeed]

/-- Lines that all have their ends are split back. -/
theorem splitLines_written (lines : List (Line × LineEnd)) :
    splitLines (written lines) = lines.map (·.1.text) := by
  have isSplit := splitOn_writtenChars lines []
  rw [List.append_nil, List.splitOn_nil] at isSplit
  rw [splitLines, written, String.toList_ofList, splitAtNewlines_eq_splitOn, isSplit,
    dropEmptyLast_append_nil, List.map_map, map_dropReturn_written]

/-- Lines are split back if the last one has no end but is not empty. -/
theorem splitLines_written_append (lines : List (Line × LineEnd)) {last : Line}
    (notEmpty : last.text ≠ "") :
    splitLines (written lines ++ last.text) = lines.map (·.1.text) ++ [last.text] := by
  have hasChars : last.text.toList ≠ [] := by
    rwa [ne_eq, String.toList_eq_nil_iff]
  have isSplit := splitOn_writtenChars lines last.text.toList
  rw [List.splitOn_eq_singleton last.noFeed] at isSplit
  rw [splitLines, String.toList_append, written, String.toList_ofList, splitAtNewlines_eq_splitOn,
    isSplit, dropEmptyLast_append_of_ne hasChars, List.map_map, List.map_append,
    map_dropReturn_written]
  simp [dropReturn_of_ne last.noReturn]

/-! ## Lines that are joined -/

/-- The characters without a line feed at their end. -/
def dropFinalNewline (cs : List Char) : List Char :=
  if cs.getLast? = some '\n' then cs.dropLast else cs

/-- Whether a line ends before the characters: they are none, or they begin with a line feed. -/
def endsLine (rest : List Char) : Bool :=
  rest.head?.all (· == '\n')

/-- The characters without the one carriage return right before each line feed and at the end. -/
def dropReturns : List Char → List Char
  | [] => []
  | c :: rest => if c = '\r' ∧ endsLine rest then dropReturns rest else c :: dropReturns rest

/-- In a line it is the carriage return at its end that is dropped. -/
theorem dropReturns_append {piece rest : List Char} (noFeed : '\n' ∉ piece)
    (isEnd : endsLine rest = true) :
    dropReturns (piece ++ rest) = dropReturn piece ++ dropReturns rest := by
  induction piece with
  | nil => rfl
  | cons c piece inductionHypothesis =>
    have noOther : '\n' ∉ piece := fun isIn => noFeed (List.mem_cons_of_mem c isIn)
    cases piece with
    | nil =>
      by_cases isReturn : c = '\r'
      · simp [dropReturns, dropReturn, isReturn, isEnd]
      · simp [dropReturns, dropReturn, isReturn]
    | cons next others =>
      -- the line goes on after this character, whatever it is
      have goesOn : endsLine (next :: others ++ rest) = false := by
        have notFeed : next ≠ '\n' := by
          rintro rfl
          exact noOther List.mem_cons_self
        simpa [endsLine] using notFeed
      rw [dropReturn_cons_cons, List.cons_append, dropReturns, goesOn,
        if_neg (by simp), inductionHypothesis noOther, List.cons_append]

/-- In pieces that are joined the carriage return at the end of each is dropped. -/
theorem dropReturns_intercalate {pieces : List (List Char)}
    (noFeed : ∀ piece ∈ pieces, '\n' ∉ piece) :
    dropReturns (['\n'].intercalate pieces) = ['\n'].intercalate (pieces.map dropReturn) := by
  induction pieces with
  | nil => rfl
  | cons piece others inductionHypothesis =>
    obtain ⟨notFirst, notOthers⟩ := List.forall_mem_cons.mp noFeed
    cases others with
    | nil =>
      have isAlone : dropReturns (piece ++ []) = dropReturn piece ++ dropReturns [] :=
        dropReturns_append notFirst rfl
      simpa [dropReturns] using isAlone
    | cons next others =>
      have feed (rest : List Char) : dropReturns ('\n' :: rest) = '\n' :: dropReturns rest :=
        if_neg fun isReturn => absurd isReturn.1 (by decide)
      rw [List.map_cons] at inductionHypothesis
      rw [List.intercalate_cons_cons, List.append_assoc, List.singleton_append,
        dropReturns_append notFirst rfl, feed, inductionHypothesis notOthers, List.map_cons,
        List.map_cons, List.intercalate_cons_cons, List.append_assoc, List.singleton_append]

/-- Joined to others, a last piece comes after a line feed. -/
theorem intercalate_append_singleton {before : List (List Char)} (isNonempty : before ≠ [])
    (last : List Char) :
    ['\n'].intercalate (before ++ [last]) = ['\n'].intercalate before ++ '\n' :: last := by
  induction before with
  | nil => exact absurd rfl isNonempty
  | cons piece others inductionHypothesis =>
    cases others with
    | nil => simp
    | cons next others =>
      have isJoined := inductionHypothesis (List.cons_ne_nil next others)
      rw [List.cons_append] at isJoined
      rw [List.cons_append, List.cons_append, List.intercalate_cons_cons, isJoined,
        List.intercalate_cons_cons, List.append_assoc, List.append_assoc, List.append_assoc]

/-- In pieces that are joined a line feed at the end comes of an empty last piece. -/
theorem dropFinalNewline_intercalate {pieces : List (List Char)} (isNonempty : pieces ≠ [])
    (noFeed : ∀ piece ∈ pieces, '\n' ∉ piece) :
    dropFinalNewline (['\n'].intercalate pieces) = ['\n'].intercalate (dropEmptyLast pieces) := by
  obtain ⟨before, last, rfl⟩ : ∃ before last, pieces = before ++ [last] :=
    ⟨_, _, (List.dropLast_append_getLast isNonempty).symm⟩
  have notLast : '\n' ∉ last := noFeed last (by simp)
  have lastStays : last.getLast? ≠ some '\n' := fun isFeed => notLast (List.mem_of_getLast? isFeed)
  -- the last piece is the end of the joined text, and it alone can be dropped
  by_cases isAlone : before = []
  · subst isAlone
    cases last with
    | nil => rfl
    | cons c rest =>
      rw [dropEmptyLast_append_of_ne (List.cons_ne_nil c rest), List.nil_append,
        List.intercalate_singleton, dropFinalNewline, if_neg lastStays]
  · rw [intercalate_append_singleton isAlone]
    cases last with
    | nil => simp [dropFinalNewline]
    | cons c rest =>
      have stays : (['\n'].intercalate before ++ '\n' :: c :: rest).getLast? ≠ some '\n' := by
        rw [List.getLast?_append_cons, List.getLast?_cons_cons]
        exact lastStays
      rw [dropEmptyLast_append_of_ne (List.cons_ne_nil c rest),
        intercalate_append_singleton isAlone, dropFinalNewline, if_neg stays]

/-- The lines of an output have no line feeds. -/
theorem notMem_of_mem_splitLines {output line : String} (isLine : line ∈ splitLines output) :
    '\n' ∉ line.toList := by
  rw [splitLines, splitAtNewlines_eq_splitOn, List.map_map, List.mem_map] at isLine
  obtain ⟨piece, isKept, rfl⟩ := isLine
  have isPiece := dropEmptyLast_subset _ isKept
  rw [Function.comp_apply, String.toList_ofList]
  exact fun isIn => notMem_of_mem_splitOn isPiece (dropReturn_subset piece isIn)

/-- The lines of an output, joined by line feeds, are the output without the line feed at its end
and without the carriage returns of its line ends. -/
theorem intercalate_splitLines (output : String) :
    "\n".intercalate (splitLines output) =
      String.ofList (dropReturns (dropFinalNewline output.toList)) := by
  have noFeed : ∀ piece ∈ output.toList.splitOn '\n', '\n' ∉ piece :=
    fun piece => notMem_of_mem_splitOn
  have noFeedKept : ∀ piece ∈ dropEmptyLast (output.toList.splitOn '\n'), '\n' ∉ piece :=
    fun piece isKept => noFeed piece (dropEmptyLast_subset _ isKept)
  have isKept := dropFinalNewline_intercalate (List.splitOn_ne_nil '\n' output.toList) noFeed
  rw [List.intercalate_splitOn] at isKept
  rw [isKept, dropReturns_intercalate noFeedKept, ← String.toList_inj, String.toList_intercalate,
    splitLines, splitAtNewlines_eq_splitOn, String.toList_ofList, List.map_map]
  simp

-- of two carriage returns one belongs to the line, and what is left at the end is an empty line
example : splitLines "a\r\r\n\n\r" = ["a\r", "", ""] := by decide

/-- Captured output splits back into its lines. Lines without line feeds that do not end in carriage
returns, each followed by a line feed or by a carriage return and a line feed, are the lines of the
text that they make, and so they are if the last one is followed by nothing but is not empty. And
the lines of any output have no line feeds and, joined by line feeds, are the output but for the
line feed at its end and the carriage returns of its line ends. -/
theorem output_splits_into_lines :
    (∀ lines : List (Line × LineEnd), splitLines (written lines) = lines.map (·.1.text)) ∧
    (∀ (lines : List (Line × LineEnd)) (last : Line), last.text ≠ "" →
      splitLines (written lines ++ last.text) = lines.map (·.1.text) ++ [last.text]) ∧
    ∀ output : String,
      (∀ line ∈ splitLines output, '\n' ∉ line.toList) ∧
      "\n".intercalate (splitLines output) =
        String.ofList (dropReturns (dropFinalNewline output.toList)) := by
  refine ⟨splitLines_written, ?unended, fun output => ⟨?noFeed, intercalate_splitLines output⟩⟩
  case unended => exact fun lines last notEmpty => splitLines_written_append lines notEmpty
  case noFeed => exact fun line isLine => notMem_of_mem_splitLines isLine

/-- Two empty lines with different ends are split from the last line, which has none. -/
theorem empty_lines_split_back :
    let empty : Line := ⟨"", by decide, by decide⟩
    let last : Line := ⟨"b\rc", by decide, by decide⟩
    last.text ≠ "" ∧ written [(empty, .feed), (empty, .returnFeed)] ++ last.text = "\n\r\nb\rc" ∧
      splitLines "\n\r\nb\rc" = ["", "", "b\rc"] := by
  intro empty last
  have notEmpty : last.text ≠ "" := by decide
  have isText : written [(empty, .feed), (empty, .returnFeed)] ++ last.text = "\n\r\nb\rc" := by
    decide
  refine ⟨notEmpty, isText, ?_⟩
  rw [← isText]
  exact output_splits_into_lines.2.1 [(empty, .feed), (empty, .returnFeed)] last notEmpty

end LispShell.Text
