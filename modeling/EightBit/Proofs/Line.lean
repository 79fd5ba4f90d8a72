import EightBit.Image

/-!
How texts fall into lines, and which part of a line counts. Blanks at the ends of a line do not
matter to its code, and the carriage return before a line feed is one of them; so lines that end
in either way have the same code.
-/

namespace EightBit

namespace Text

def Blank (text : List Char) : Prop :=
  ∀ c ∈ text, isBlank c = true

instance (text : List Char) : Decidable (Blank text) :=
  List.decidableBAll (fun c => isBlank c = true) text

variable {text line before after : List Char}

theorem blank_carriageReturn : Blank ['\r'] := by
  decide

theorem Blank.not_mem (blank : Blank text) {c : Char} (printed : isBlank c = false) :
    c ∉ text := by
  intro among
  rw [blank c among] at printed
  contradiction

theorem trimStart_of_blank (blank : Blank text) : trimStart text = [] := by
  have emptied : trimStart (text ++ []) = trimStart [] := List.dropWhile_append_of_pos blank
  rwa [List.append_nil] at emptied

theorem trimEnd_append_blank (blank : Blank after) (text : List Char) :
    trimEnd (text ++ after) = trimEnd text := by
  have reversed : ∀ c ∈ after.reverse, isBlank c = true :=
    fun c among => blank c (List.mem_reverse.mp among)
  rw [trimEnd, trimEnd, List.reverse_append, List.dropWhile_append_of_pos reversed]

theorem trim_blank_append (blank : Blank before) (text : List Char) :
    trim (before ++ text) = trim text := by
  rw [trim, trim, trimStart, trimStart, List.dropWhile_append_of_pos blank]

theorem trim_append_blank (blank : Blank after) (text : List Char) :
    trim (text ++ after) = trim text := by
  have start : trimStart (text ++ after) =
      if (trimStart text).isEmpty then trimStart after else trimStart text ++ after :=
    List.dropWhile_append
  rw [trim, trim, start]
  split
  next empty => rw [trimStart_of_blank blank, List.isEmpty_iff.mp empty]
  next => exact trimEnd_append_blank blank _

theorem trim_of_blank (blank : Blank text) : trim text = [] := by
  rw [trim, trimStart_of_blank blank]
  rfl

theorem trim_of_printed_ends (first : ∀ c ∈ text.head?, isBlank c = false)
    (last : ∀ c ∈ text.getLast?, isBlank c = false) : trim text = text := by
  have dropWhile_eq (part : List Char) (printed : ∀ c ∈ part.head?, isBlank c = false) :
      part.dropWhile isBlank = part := by
    cases part with
    | nil => rfl
    | cons c rest => exact List.dropWhile_cons_of_neg (by simp [printed c rfl])
  rw [trim, trimStart, dropWhile_eq text first, trimEnd, dropWhile_eq text.reverse,
    List.reverse_reverse]
  rwa [List.head?_reverse]

theorem trim_of_not_blank (printed : ∀ c ∈ text, isBlank c = false) : trim text = text :=
  trim_of_printed_ends (fun c first => printed c (List.mem_of_head? first))
    fun c last => printed c (List.mem_of_getLast? last)

theorem exists_eq_append_trim (text : List Char) :
    ∃ before after, Blank before ∧ Blank after ∧ text = before ++ trim text ++ after := by
  have blank_takeWhile (part : List Char) : Blank (part.takeWhile isBlank) :=
    List.all_eq_true.mp List.all_takeWhile
  have atStart : text = text.takeWhile isBlank ++ trimStart text :=
    List.takeWhile_append_dropWhile.symm
  have atEnd : trimStart text =
      trim text ++ ((trimStart text).reverse.takeWhile isBlank).reverse := by
    rw [trim, trimEnd, ← List.reverse_append, List.takeWhile_append_dropWhile, List.reverse_reverse]
  refine ⟨text.takeWhile isBlank, ((trimStart text).reverse.takeWhile isBlank).reverse,
    blank_takeWhile text, ?_, ?_⟩
  · intro c among
    exact blank_takeWhile _ c (List.mem_reverse.mp among)
  · rw [List.append_assoc, ← atEnd]
    exact atStart

theorem trim_between (blankBefore : Blank before) (blankAfter : Blank after) (text : List Char) :
    trim (before ++ text ++ after) = trim text := by
  rw [trim_append_blank blankAfter, trim_blank_append blankBefore]

theorem trim_trim (text : List Char) : trim (trim text) = trim text := by
  obtain ⟨before, after, blankBefore, blankAfter, whole⟩ := exists_eq_append_trim text
  have trimmed := trim_between blankBefore blankAfter (trim text)
  rw [← whole] at trimmed
  exact trimmed.symm

theorem length_trim_le (text : List Char) : (trim text).length ≤ text.length := by
  obtain ⟨before, after, -, -, whole⟩ := exists_eq_append_trim text
  have lengths := congrArg List.length whole
  simp only [List.length_append] at lengths
  omega

/-- What is left of a text without the blanks at its ends. -/
structure Trimmed (text core : List Char) : Prop where
  between : ∃ before after, Blank before ∧ Blank after ∧ text = before ++ core ++ after
  notBefore : ∀ c ∈ core.head?, isBlank c = false
  notBehind : ∀ c ∈ core.getLast?, isBlank c = false

/-- If a blank were left at an end, trimming once more would make the text shorter. -/
theorem trimmed_trim (text : List Char) : Trimmed text (trim text) where
  between := exists_eq_append_trim text
  notBefore := by
    intro c first
    obtain ⟨rest, begins⟩ := List.head?_eq_some_iff.mp first
    refine Bool.eq_false_iff.mpr fun blank => ?_
    have alone : Blank [c] := by simpa [Blank] using blank
    have shorter := length_trim_le rest
    rw [← trim_blank_append alone, List.singleton_append, ← begins, trim_trim, begins,
      List.length_cons] at shorter
    omega
  notBehind := by
    intro c last
    obtain ⟨rest, ends⟩ := List.getLast?_eq_some_iff.mp last
    refine Bool.eq_false_iff.mpr fun blank => ?_
    have alone : Blank [c] := by simpa [Blank] using blank
    have shorter := length_trim_le rest
    rw [← trim_append_blank alone, ← ends, trim_trim, ends, List.length_append,
      List.length_singleton] at shorter
    omega

theorem trim_eq_iff {core : List Char} : trim text = core ↔ Trimmed text core := by
  constructor
  · rintro rfl
    exact trimmed_trim text
  · rintro ⟨⟨before, after, blankBefore, blankAfter, rfl⟩, first, last⟩
    rw [trim_between blankBefore blankAfter, trim_of_printed_ends first last]

/-- The carriage return that a line loses with its line feed would be trimmed anyway. -/
theorem trim_endLine (line : List Char) : trim (endLine line) = trim line.reverse := by
  unfold endLine
  split
  next rest => rw [List.reverse_cons, trim_append_blank blank_carriageReturn]
  next => rfl

theorem linesFrom_append (oneLine : '\n' ∉ line) (begun rest : List Char) :
    linesFrom begun (line ++ rest) = linesFrom (line.reverse ++ begun) rest := by
  induction line generalizing begun with
  | nil => rfl
  | cons c line inductionHypothesis =>
      have inside : c ≠ '\n' := fun feed => oneLine (feed ▸ List.mem_cons_self)
      have otherwise : '\n' ∉ line := fun among => oneLine (List.mem_cons_of_mem c among)
      rw [List.cons_append, linesFrom, if_neg inside, inductionHypothesis otherwise,
        List.reverse_cons, List.append_assoc, List.singleton_append]

theorem lines_append_lineFeed (oneLine : '\n' ∉ line) (rest : List Char) :
    lines (line ++ '\n' :: rest) = endLine line.reverse :: lines rest := by
  rw [lines, linesFrom_append oneLine, List.append_nil, linesFrom, if_pos rfl, lines]

theorem lines_of_oneLine (oneLine : '\n' ∉ line) :
    lines line = if line.isEmpty then [] else [line] := by
  have read := linesFrom_append oneLine [] []
  rw [List.append_nil, List.append_nil] at read
  rw [lines, read, linesFrom, List.isEmpty_reverse, List.reverse_reverse]

end Text

namespace Image

open Text (Blank)

/-- A line is its body, and behind it there may be a remark. -/
inductive Remarked (body : List Char) : List Char → Prop where
  | bare : Remarked body body
  | remark (text : List Char) : Remarked body (body ++ '#' :: text)

variable {body line before after : List Char}

theorem exists_remarked (line : List Char) : ∃ body, '#' ∉ body ∧ Remarked body line := by
  by_cases marked : '#' ∈ line
  · obtain ⟨body, text, rfl, noMark⟩ := List.eq_append_cons_of_mem marked
    exact ⟨body, noMark, .remark text⟩
  · exact ⟨line, marked, .bare⟩

theorem Remarked.code_eq (remarked : Remarked body line) (noMark : '#' ∉ body) :
    code line = Text.trim body := by
  have unmarked : ∀ c ∈ body, decide (c ≠ '#') = true :=
    fun c among => decide_eq_true fun mark => noMark (mark ▸ among)
  cases remarked with
  | bare =>
      rw [code, ← List.append_nil body, List.takeWhile_append_of_pos unmarked, List.takeWhile_nil]
  | remark text =>
      rw [code, List.takeWhile_append_of_pos unmarked, List.takeWhile_cons_of_neg (by decide),
        List.append_nil]

/-- The literal of a line: what stands in it before the first `#`, without the blanks at its ends. -/
def LiteralOf (line literal : List Char) : Prop :=
  ∃ body, '#' ∉ body ∧ Remarked body line ∧ Text.Trimmed body literal

theorem code_eq_iff {literal : List Char} : code line = literal ↔ LiteralOf line literal := by
  constructor
  · rintro rfl
    obtain ⟨body, noMark, remarked⟩ := exists_remarked line
    exact ⟨body, noMark, remarked, Text.trim_eq_iff.mp (remarked.code_eq noMark).symm⟩
  · rintro ⟨body, noMark, remarked, trimmed⟩
    rw [remarked.code_eq noMark, Text.trim_eq_iff.mpr trimmed]

/-- Blanks at the end of a line are no code: they belong to a remark, or they are trimmed. -/
theorem code_append_blank (blank : Blank after) (line : List Char) :
    code (line ++ after) = code line := by
  obtain ⟨body, noMark, remarked⟩ := exists_remarked line
  have sameBody : code line = Text.trim body := remarked.code_eq noMark
  cases remarked with
  | bare =>
      have stillNoMark : '#' ∉ line ++ after :=
        List.not_mem_append noMark (blank.not_mem (by decide))
      rw [Remarked.bare.code_eq stillNoMark, Text.trim_append_blank blank, sameBody]
  | remark text =>
      have longer : code (body ++ '#' :: text ++ after) = Text.trim body := by
        rw [List.append_assoc, List.cons_append]
        exact (Remarked.remark (text ++ after)).code_eq noMark
      rw [longer, sameBody]

theorem code_blank_append (blank : Blank before) (line : List Char) :
    code (before ++ line) = code line := by
  have unmarked : ∀ c ∈ before, decide (c ≠ '#') = true := by
    intro c among
    apply decide_eq_true
    rintro rfl
    exact blank.not_mem (by decide) among
  rw [code, List.takeWhile_append_of_pos unmarked, Text.trim_blank_append blank, code]

theorem code_trim (line : List Char) : code (Text.trim line) = code line := by
  obtain ⟨before, after, blankBefore, blankAfter, whole⟩ := Text.exists_eq_append_trim line
  calc code (Text.trim line)
      = code (before ++ Text.trim line) := (code_blank_append blankBefore _).symm
    _ = code (before ++ Text.trim line ++ after) := (code_append_blank blankAfter _).symm
    _ = code line := by rw [← whole]

theorem code_endLine (line : List Char) : code (Text.endLine line) = code line.reverse := by
  rw [← code_trim, Text.trim_endLine, code_trim]

end Image

end EightBit
