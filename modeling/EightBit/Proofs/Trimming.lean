import EightBit.Proofs.Line

/-!
Blanks at the ends of lines. A line says the same when it is trimmed, so all that counts of an image
is its trimmed lines. Texts that agree in these are read alike: with either kind of line end, with or
without an end behind the last line, and with lines indented or padded in any way.
-/

namespace EightBit

namespace Text

variable {text line before after : List Char}

/-- A text is one line without an end, or a line with its end and another text behind it. -/
theorem lines_induction {motive : List Char → Prop}
    (unended : ∀ line, '\n' ∉ line → motive line)
    (ended : ∀ line rest, '\n' ∉ line → motive rest → motive (line ++ '\n' :: rest))
    (text : List Char) : motive text := by
  induction length : text.length using Nat.strongRecOn generalizing text with
  | ind n inductionHypothesis =>
      by_cases feed : '\n' ∈ text
      · obtain ⟨line, rest, rfl, oneLine⟩ := List.eq_append_cons_of_mem feed
        have shorter : rest.length < n := by
          rw [← length, List.length_append, List.length_cons]
          omega
        exact ended line rest oneLine (inductionHypothesis rest.length shorter rest rfl)
      · exact unended text feed

def trimmedLines (text : List Char) : List (List Char) :=
  (lines text).map trim

theorem trimmedLines_append_lineFeed (oneLine : '\n' ∉ line) (rest : List Char) :
    trimmedLines (line ++ '\n' :: rest) = trim line :: trimmedLines rest := by
  rw [trimmedLines, lines_append_lineFeed oneLine, List.map_cons, trim_endLine,
    List.reverse_reverse, trimmedLines]

theorem trimmedLines_of_oneLine (oneLine : '\n' ∉ line) (filled : line ≠ []) :
    trimmedLines line = [trim line] := by
  have notEmpty : ¬ line.isEmpty = true := by simpa using filled
  rw [trimmedLines, lines_of_oneLine oneLine, if_neg notEmpty, List.map_singleton]

def withCarriageReturns (text : List Char) : List Char :=
  text.flatMap fun c => if c = '\n' then ['\r', '\n'] else [c]

theorem withCarriageReturns_of_oneLine (oneLine : '\n' ∉ line) :
    withCarriageReturns line = line := by
  induction line with
  | nil => rfl
  | cons c line inductionHypothesis =>
      have inside : c ≠ '\n' := fun feed => oneLine (feed ▸ List.mem_cons_self)
      have kept := inductionHypothesis fun among => oneLine (List.mem_cons_of_mem c among)
      unfold withCarriageReturns at kept ⊢
      rw [List.flatMap_cons, if_neg inside, kept, List.singleton_append]

theorem withCarriageReturns_append_lineFeed (oneLine : '\n' ∉ line) (rest : List Char) :
    withCarriageReturns (line ++ '\n' :: rest) =
      line ++ ['\r'] ++ '\n' :: withCarriageReturns rest := by
  have kept := withCarriageReturns_of_oneLine oneLine
  unfold withCarriageReturns at kept ⊢
  rw [List.flatMap_append, kept, List.flatMap_cons, if_pos rfl, List.append_assoc]
  rfl

theorem trimmedLines_withCarriageReturns (text : List Char) :
    trimmedLines (withCarriageReturns text) = trimmedLines text := by
  induction text using lines_induction with
  | unended line oneLine => rw [withCarriageReturns_of_oneLine oneLine]
  | ended line rest oneLine inductionHypothesis =>
      have longer : '\n' ∉ line ++ ['\r'] := List.not_mem_append oneLine (by decide)
      rw [withCarriageReturns_append_lineFeed oneLine, trimmedLines_append_lineFeed longer,
        trimmedLines_append_lineFeed oneLine, trim_append_blank blank_carriageReturn,
        inductionHypothesis]

theorem trimmedLines_append_end (filled : text ≠ []) (unended : text.getLast? ≠ some '\n') :
    trimmedLines (text ++ ['\n']) = trimmedLines text := by
  induction text using lines_induction with
  | unended line oneLine =>
      rw [trimmedLines_append_lineFeed oneLine, trimmedLines_of_oneLine oneLine filled]
      rfl
  | ended line rest oneLine inductionHypothesis =>
      -- Something follows this line, for otherwise the text would end with its line feed.
      have more : rest ≠ [] := by
        rintro rfl
        exact unended List.getLast?_concat
      have stillUnended : rest.getLast? ≠ some '\n' := by
        have last := List.getLast?_eq_some_getLast more
        simpa [List.getLast?_append, List.getLast?_cons, last] using unended
      rw [List.append_assoc, List.cons_append, trimmedLines_append_lineFeed oneLine,
        trimmedLines_append_lineFeed oneLine, inductionHypothesis more stillUnended]

/-- Blanks that begin no other line. -/
def Padding (blanks : List Char) : Prop :=
  Blank blanks ∧ '\n' ∉ blanks

theorem Padding.oneLine (indent : Padding before) (oneLine : '\n' ∉ line)
    (padding : Padding after) : '\n' ∉ before ++ line ++ after :=
  List.not_mem_append (List.not_mem_append indent.2 oneLine) padding.2

/-- The second text is the first with its lines indented and padded, each by blanks of its own or by
none. Padding stands before the end of a line, and the carriage return may or may not count as a part
of that end. -/
inductive Padded : List Char → List Char → Prop where
  | nil : Padded [] []
  | unended {line before after : List Char} (oneLine : '\n' ∉ line) (filled : line ≠ [])
      (indent : Padding before) (padding : Padding after) :
      Padded line (before ++ line ++ after)
  | lineFeed {line before after text padded : List Char} (oneLine : '\n' ∉ line)
      (indent : Padding before) (padding : Padding after) (others : Padded text padded) :
      Padded (line ++ '\n' :: text) (before ++ line ++ after ++ '\n' :: padded)
  | carriageReturn {line before after text padded : List Char} (oneLine : '\n' ∉ line)
      (indent : Padding before) (padding : Padding after) (others : Padded text padded) :
      Padded (line ++ ['\r'] ++ '\n' :: text)
        (before ++ line ++ after ++ ['\r'] ++ '\n' :: padded)

theorem Padded.trimmedLines_eq {padded : List Char} (pads : Padded text padded) :
    trimmedLines padded = trimmedLines text := by
  induction pads with
  | nil => rfl
  | @unended line before after oneLine filled indent padding =>
      have stillFilled : before ++ line ++ after ≠ [] := by simp [filled]
      rw [trimmedLines_of_oneLine oneLine filled,
        trimmedLines_of_oneLine (indent.oneLine oneLine padding) stillFilled,
        trim_between indent.1 padding.1]
  | lineFeed oneLine indent padding _ inductionHypothesis =>
      rw [trimmedLines_append_lineFeed (indent.oneLine oneLine padding),
        trimmedLines_append_lineFeed oneLine, trim_between indent.1 padding.1, inductionHypothesis]
  | carriageReturn oneLine indent padding _ inductionHypothesis =>
      have noFeed : '\n' ∉ ['\r'] := by decide
      have longer := List.not_mem_append oneLine noFeed
      have stillOneLine := List.not_mem_append (indent.oneLine oneLine padding) noFeed
      rw [trimmedLines_append_lineFeed stillOneLine, trimmedLines_append_lineFeed longer,
        trim_append_blank blank_carriageReturn, trim_append_blank blank_carriageReturn,
        trim_between indent.1 padding.1, inductionHypothesis]

end Text

namespace Image

open Text (Blank Padded trim trimmedLines withCarriageReturns)

variable {size : Nat}

theorem ofLine_trim (line : List Char) : Reading.ofLine (trim line) = Reading.ofLine line := by
  unfold Reading.ofLine
  rw [code_trim, Text.trim_trim]

theorem place_map_trim (before address : Nat) (memory : Memory size) (lines : List (List Char)) :
    place before address memory (lines.map trim) = place before address memory lines := by
  induction lines generalizing before address memory with
  | nil => rfl
  | cons line rest inductionHypothesis =>
      simp only [List.map_cons, place, ofLine_trim, inductionHypothesis]

theorem parseInto_eq_place (base : Memory size) (text : String) :
    parseInto base text = place 0 0 base (trimmedLines text.toList) :=
  (place_map_trim 0 0 base (Text.lines text.toList)).symm

/-- Texts with the same trimmed lines give the same memory or the same fault, and the same log. So it
does not matter in which way lines end, whether the last one does, or what blanks stand around
them. -/
theorem parseInto_depends_on_trimmed_lines (base : Memory size) :
    (∀ first second : String, trimmedLines first.toList = trimmedLines second.toList →
      parseInto base first = parseInto base second) ∧
    (∀ text : String,
      parseInto base (String.ofList (withCarriageReturns text.toList)) = parseInto base text) ∧
    (∀ text : String, text ≠ "" → text.toList.getLast? ≠ some '\n' →
      parseInto base (text ++ "\n") = parseInto base text) ∧
    ∀ text padded : String, Padded text.toList padded.toList →
      parseInto base padded = parseInto base text := by
  simp only [parseInto_eq_place]
  refine ⟨?_, ?_, ?_, ?_⟩
  · intro first second same
    rw [same]
  · intro text
    rw [String.toList_ofList, Text.trimmedLines_withCarriageReturns]
  · intro text filled unended
    have someText : text.toList ≠ [] := by simpa using filled
    have lineFeed : "\n".toList = ['\n'] := rfl
    rw [String.toList_append, lineFeed, Text.trimmedLines_append_end someText unended]
  · intro text padded pads
    rw [pads.trimmedLines_eq]

/-- Line ends of both kinds, and padding before and behind a carriage return. -/
theorem parseInto_depends_on_trimmed_lines_mixed :
    let text := "1 # one\r\nnot binary\n10\r"
    let padded := "\u2003 1 # one\t\r\nnot binary\r \n\x0b10\r\r"
    Padded text.toList padded.toList ∧
      ∀ base : Memory 2, parseInto base padded = parseInto base text ∧
        parseInto base (text ++ "\n") = parseInto base text := by
  intro text padded
  have last : Padded ['1', '0', '\r'] (['\x0b'] ++ ['1', '0', '\r'] ++ ['\r']) :=
    .unended (by decide) (by decide) ⟨by decide, by decide⟩ ⟨by decide, by decide⟩
  have second : Padded ("not binary".toList ++ '\n' :: ['1', '0', '\r'])
      ([] ++ "not binary".toList ++ ['\r', ' '] ++
        '\n' :: (['\x0b'] ++ ['1', '0', '\r'] ++ ['\r'])) :=
    .lineFeed (by decide) ⟨by decide, by decide⟩ ⟨by decide, by decide⟩ last
  have pads : Padded text.toList padded.toList := by
    have textLines : text.toList = "1 # one".toList ++ ['\r'] ++
        '\n' :: ("not binary".toList ++ '\n' :: ['1', '0', '\r']) := by decide
    have paddedLines : padded.toList = ['\u2003', ' '] ++ "1 # one".toList ++ ['\t'] ++ ['\r'] ++
        '\n' :: ([] ++ "not binary".toList ++ ['\r', ' '] ++
          '\n' :: (['\x0b'] ++ ['1', '0', '\r'] ++ ['\r'])) := by decide
    rw [textLines, paddedLines]
    exact .carriageReturn (by decide) ⟨by decide, by decide⟩ ⟨by decide, by decide⟩ second
  refine ⟨pads, fun base => ?_⟩
  obtain ⟨-, -, ended, alike⟩ := parseInto_depends_on_trimmed_lines base
  exact ⟨alike text padded pads, ended text (by decide) (by decide)⟩

end Image

end EightBit
