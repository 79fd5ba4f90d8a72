import EightBit.CommandLine.Request

/-!
Which requests arguments make. Words that ask for a fuller log may stand anywhere and add up, as far
as a byte can count; the program is the one word among them that is none.
-/

namespace EightBit.CommandLine

/-- Words that do nothing but ask for a fuller log, and how often they ask for it in all: once with
`--verbose`, and with every letter of `-v`, `-vv` and so on. -/
inductive Verbose : List String → Nat → Prop where
  | nil : Verbose [] 0
  | word {rest : List String} {count : Nat} :
      Verbose rest count → Verbose ("--verbose" :: rest) (count + 1)
  | letters {rest : List String} {count : Nat} (more : Nat) :
      Verbose rest count →
      Verbose (String.ofList ('-' :: List.replicate (more + 1) 'v') :: rest) (count + (more + 1))

/-- The program is named once, and the other words ask for a fuller log `verbosity` times. -/
inductive Invokes (program : String) : Nat → List String → Prop where
  | intro {before after : List String} {earlier later : Nat} :
      Verbose before earlier →
      Verbose after later →
      Invokes program (earlier + later) (before ++ program :: after)

namespace Request

/-- Counting in a byte that stops at its greatest value gives the number, or 255 if it is larger. -/
theorem raise_min (verbosity : Nat) : raise (min 255 verbosity) = min 255 (verbosity + 1) := by
  rw [raise]
  omega

theorem ofLetters_replicate (verbosity more : Nat) :
    Group.ofLetters (min 255 verbosity) (List.replicate more 'v') =
      .verbose (min 255 (verbosity + more)) := by
  induction more generalizing verbosity with
  | zero => rfl
  | succ more inductionHypothesis =>
      have first : Group.ofLetters (min 255 verbosity) ('v' :: List.replicate more 'v') =
          Group.ofLetters (raise (min 255 verbosity)) (List.replicate more 'v') := rfl
      rw [List.replicate_succ, first, raise_min, inductionHypothesis, Nat.add_right_comm,
        Nat.add_assoc]

variable {program : Option String} {verbosity : Nat} {rest : List String}

theorem ofArgumentsFrom?_letters (more : Nat) :
    ofArgumentsFrom? program (min 255 verbosity)
        (String.ofList ('-' :: List.replicate (more + 1) 'v') :: rest) =
      ofArgumentsFrom? program (min 255 (verbosity + (more + 1))) rest := by
  have letters : (String.ofList ('-' :: List.replicate (more + 1) 'v')).toList =
      '-' :: 'v' :: List.replicate more 'v' := String.toList_ofList
  have group := ofLetters_replicate verbosity (more + 1)
  rw [List.replicate_succ] at group
  conv => lhs; unfold ofArgumentsFrom?
  rw [letters]
  simp [group]

theorem ofArgumentsFrom?_program {word : String} (named : word ≠ "")
    (noOption : word.toList.head? ≠ some '-') :
    ofArgumentsFrom? none verbosity (word :: rest) =
      ofArgumentsFrom? (some word) verbosity rest := by
  conv => lhs; unfold ofArgumentsFrom?
  cases characters : word.toList with
  | nil => exact absurd (String.toList_eq_nil_iff.mp characters) named
  | cons c others =>
      have plain : c ≠ '-' := by simpa [characters] using noOption
      simp [plain]

theorem ofArgumentsFrom?_verbose {words : List String} {count : Nat}
    (asking : Verbose words count) (program : Option String) (verbosity : Nat)
    (rest : List String) :
    ofArgumentsFrom? program (min 255 verbosity) (words ++ rest) =
      ofArgumentsFrom? program (min 255 (verbosity + count)) rest := by
  induction asking generalizing verbosity with
  | nil => rfl
  | @word others count asking inductionHypothesis =>
      have long : ofArgumentsFrom? program (min 255 verbosity) ("--verbose" :: (others ++ rest)) =
          ofArgumentsFrom? program (raise (min 255 verbosity)) (others ++ rest) := rfl
      rw [List.cons_append, long, raise_min, inductionHypothesis, Nat.add_right_comm,
        Nat.add_assoc]
  | letters more asking inductionHypothesis =>
      rw [List.cons_append, ofArgumentsFrom?_letters, inductionHypothesis, Nat.add_right_comm,
        Nat.add_assoc]

theorem ofArguments?_of_invokes {program : String} {arguments : List String}
    (named : program ≠ "") (noOption : program.toList.head? ≠ some '-')
    (invokes : Invokes program verbosity arguments) :
    ofArguments? arguments = some (.run program (min 255 verbosity)) := by
  cases invokes with
  | @intro before after earlier later asking askingToo =>
      calc
        ofArgumentsFrom? none (min 255 0) (before ++ program :: after) =
            ofArgumentsFrom? none (min 255 (0 + earlier)) (program :: after) :=
          ofArgumentsFrom?_verbose asking none 0 _
        _ = ofArgumentsFrom? (some program) (min 255 (0 + earlier)) (after ++ []) := by
          rw [ofArgumentsFrom?_program named noOption, List.append_nil]
        _ = ofArgumentsFrom? (some program) (min 255 (0 + earlier + later)) [] :=
          ofArgumentsFrom?_verbose askingToo (some program) _ []
        _ = some (.run program (min 255 (earlier + later))) := by
          rw [Nat.zero_add]
          rfl

end Request

end EightBit.CommandLine
