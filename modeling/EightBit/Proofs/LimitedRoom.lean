import EightBit.Proofs.Run

/-!
Output that takes only so many characters. Cycles whose text fits into it are those of an output that
takes everything. The first number that goes beyond the limit is cut off there, and leaves the machine
and the log as they were before it.
-/

namespace EightBit

variable {size : Nat}

/-- What an outcome in an output that takes everything is in one that takes `limit` characters, if its
text fits. -/
def Outcome.within (free : Outcome size) (limit : Nat) : Outcome size :=
  { free with room := some (limit - free.output.length) }

/-- What an outcome in an output that takes everything becomes in one with `room`, if an instruction
led to it from `before`: the instruction only takes effect if its text fits. -/
def Outcome.deliveredTo (free : Outcome size) (room : Room) (before : Machine size) :
    Outcome size :=
  let delivery := room.deliver free.output
  if delivery.complete then { free with room := delivery.room }
  else
    { machine := before
      room := delivery.room
      output := delivery.written
      fault := some .outputFull }

theorem Rule.text_eq_or {machine : Machine size} {instruction : Instruction} {effect : Effect size}
    (rule : Rule machine instruction effect) :
    effect.text = "" ∨ ∃ register value, instruction = .prn register ∧
      machine.get register = .ok value ∧ effect.text = toString value.toNat ++ "\n" := by
  cases rule with
  | prn named => exact .inr ⟨_, _, rfl, named, rfl⟩
  | _ => exact .inl rfl

namespace Instruction

variable {machine : Machine size} {instruction : Instruction}

theorem output_of_effect {effect : Effect size} (computed : instruction.effect machine = .ok effect) :
    (instruction.execute machine none).output = effect.text := by
  simp only [execute, computed, Room.deliver, ↓reduceIte]
  cases effect.goOn instruction.length <;> rfl

theorem execute_eq_deliveredTo (instruction : Instruction) (machine : Machine size) (room : Room) :
    instruction.execute machine room =
      (instruction.execute machine none).deliveredTo room machine := by
  cases computed : instruction.effect machine with
  | error fault => simp [execute, computed, Outcome.deliveredTo]
  | ok effect =>
      rw [Outcome.deliveredTo, output_of_effect computed]
      cases complete : (room.deliver effect.text).complete with
      | false => simp [execute, computed, complete]
      | true =>
          have whole := Room.written_of_complete complete
          have free : Room.deliver none effect.text = ⟨effect.text, none, true⟩ := rfl
          cases wentOn : effect.goOn instruction.length with
          | error fault => simp [execute, computed, complete, wentOn, whole, free]
          | ok next => simp [execute, computed, complete, wentOn, whole, free]

theorem output_eq_or (instruction : Instruction) (machine : Machine size) :
    (instruction.execute machine none).output = "" ∨
      ∃ register value, instruction = .prn register ∧ machine.get register = .ok value ∧
        (instruction.execute machine none).output = toString value.toNat ++ "\n" := by
  cases computed : instruction.effect machine with
  | error fault => exact .inl (by simp [execute, computed])
  | ok effect =>
      rw [output_of_effect computed]
      exact (effect_eq_ok_iff.mp computed).text_eq_or

end Instruction

namespace Machine

variable {machine : Machine size} {room : Room} {n k limit : Nat}

theorem cycle_eq_deliveredTo (machine : Machine size) (room : Room) :
    machine.cycle room = (machine.cycle none).deliveredTo room machine := by
  cases fetched : machine.fetch with
  | error fault => simp [cycle, fetched, Outcome.deliveredTo]
  | ok instruction =>
      rw [cycle_of_fetch fetched, cycle_of_fetch fetched]
      exact instruction.execute_eq_deliveredTo machine room

theorem output_eq_or (machine : Machine size) :
    (machine.cycle none).output = "" ∨
      ∃ register value, machine.fetch = .ok (.prn register) ∧ machine.get register = .ok value ∧
        (machine.cycle none).output = toString value.toNat ++ "\n" := by
  cases fetched : machine.fetch with
  | error fault => exact .inl (by simp [cycle, fetched])
  | ok instruction =>
      rw [cycle_of_fetch fetched]
      rcases instruction.output_eq_or machine with silent | ⟨register, value, rfl, named, printed⟩
      · exact .inl silent
      · exact .inr ⟨register, value, rfl, named, printed⟩

theorem room_of_unlimited (machine : Machine size) : (machine.cycle none).room = none := by
  rw [cycle_eq_deliveredTo]
  rfl

theorem cycle_of_fits (fits : (machine.cycle none).output.length ≤ limit) :
    machine.cycle (some limit) = (machine.cycle none).within limit := by
  rw [cycle_eq_deliveredTo, Outcome.deliveredTo, Room.deliver, if_pos fits]
  rfl

theorem cycle_of_overflow (overflow : limit < (machine.cycle none).output.length) :
    ∃ register value, machine.fetch = .ok (.prn register) ∧ machine.get register = .ok value ∧
      (machine.cycle none).output = toString value.toNat ++ "\n" ∧
      machine.cycle (some limit) =
        { machine
          room := some 0
          output := String.ofList ((machine.cycle none).output.toList.take limit)
          fault := some .outputFull } := by
  have cut : machine.cycle (some limit) = _ := cycle_eq_deliveredTo machine (some limit)
  rw [Outcome.deliveredTo, Room.deliver, if_neg (Nat.not_le.mpr overflow)] at cut
  rcases machine.output_eq_or with silent | ⟨register, value, fetched, named, printed⟩
  · rw [silent] at overflow
    contradiction
  · exact ⟨register, value, fetched, named, printed, cut⟩

theorem utf8Size_of_mem_output {c : Char} (among : c ∈ (machine.cycle none).output.toList) :
    c.utf8Size = 1 := by
  rcases machine.output_eq_or with silent | ⟨register, value, -, -, printed⟩
  · rw [silent] at among
    contradiction
  · rw [printed, String.toList_append, List.mem_append] at among
    rcases among with digit | lineEnd
    · have isDigit := Text.isDigit_of_mem_toString digit
      simp only [Char.isDigit, Bool.and_eq_true, decide_eq_true_eq] at isDigit
      have ascii : c.val ≤ 127 := UInt32.le_trans isDigit.2 (by decide)
      simp [Char.utf8Size, ascii]
    · cases List.mem_singleton.mp lineEnd
      decide

theorem cycles_succ_of_faulted (faulted : (machine.cycles n room).fault.isSome) :
    machine.cycles (n + 1) room = machine.cycles n room := by
  rw [cycles_succ_last, Outcome.andThen_of_fault faulted]

theorem cycles_of_faulted (faulted : (machine.cycles k room).fault.isSome) (atMost : k ≤ n) :
    machine.cycles n room = machine.cycles k room := by
  induction atMost with
  | refl => rfl
  | step _ inductionHypothesis =>
      rw [cycles_succ_of_faulted (by rwa [inductionHypothesis]), inductionHypothesis]

theorem exists_output_succ (machine : Machine size) (room : Room) (n : Nat) :
    ∃ added, (machine.cycles (n + 1) room).output = (machine.cycles n room).output ++ added ∧
      (added = "" ∨ added = (machine.cycleAfter room n).output) := by
  cases passed : (machine.cycles n room).fault with
  | some fault =>
      rw [cycles_succ_of_faulted (by simp [passed])]
      exact ⟨"", String.append_empty.symm, .inl rfl⟩
  | none =>
      rw [cycles_succ_of_passed passed]
      exact ⟨_, rfl, .inr rfl⟩

theorem output_isPrefix (atMost : k ≤ n) :
    (machine.cycles k room).output.toList <+: (machine.cycles n room).output.toList := by
  induction atMost with
  | refl => exact List.prefix_rfl
  | step _ inductionHypothesis =>
      obtain ⟨added, extended, -⟩ := exists_output_succ machine room _
      rw [extended, String.toList_append]
      exact inductionHypothesis.trans (List.prefix_append _ _)

theorem output_length_le (atMost : k ≤ n) :
    (machine.cycles k room).output.length ≤ (machine.cycles n room).output.length := by
  rw [← String.length_toList, ← String.length_toList]
  exact (output_isPrefix atMost).length_le

theorem room_of_cycles_unlimited (machine : Machine size) (n : Nat) :
    (machine.cycles n none).room = none := by
  induction n with
  | zero => rfl
  | succ n inductionHypothesis =>
      cases passed : (machine.cycles n none).fault with
      | some fault =>
          rw [cycles_succ_of_faulted (by simp [passed])]
          exact inductionHypothesis
      | none =>
          rw [cycles_succ_of_passed passed, cycleAfter, inductionHypothesis]
          exact room_of_unlimited _

theorem cycleAfter_unlimited (machine : Machine size) (n : Nat) :
    machine.cycleAfter none n = (machine.cycles n none).machine.cycle none := by
  rw [cycleAfter, room_of_cycles_unlimited]

theorem utf8Size_of_mem_output_cycles {c : Char}
    (among : c ∈ (machine.cycles n none).output.toList) : c.utf8Size = 1 := by
  induction n with
  | zero => contradiction
  | succ n inductionHypothesis =>
      obtain ⟨added, extended, silent | printed⟩ := exists_output_succ machine none n
      · rw [extended, silent, String.append_empty] at among
        exact inductionHypothesis among
      · rw [extended, printed, cycleAfter_unlimited, String.toList_append, List.mem_append] at among
        exact among.elim inductionHypothesis utf8Size_of_mem_output

/-- As long as the text fits into the limit the limit makes no difference. -/
theorem cycles_of_fits (fits : (machine.cycles n none).output.length ≤ limit) :
    machine.cycles n (some limit) = (machine.cycles n none).within limit := by
  induction n with
  | zero => rfl
  | succ n inductionHypothesis =>
      have same := inductionHypothesis (Nat.le_trans (output_length_le (Nat.le_succ n)) fits)
      cases passed : (machine.cycles n none).fault with
      | some fault =>
          have faulted : (machine.cycles n (some limit)).fault.isSome := by
            simp [same, Outcome.within, passed]
          rw [cycles_succ_of_faulted faulted, cycles_succ_of_faulted (by simp [passed]), same]
      | none =>
          have passedToo : (machine.cycles n (some limit)).fault = none := by
            simp [same, Outcome.within, passed]
          rw [cycles_succ_of_passed passed, String.length_append, cycleAfter_unlimited] at fits
          have fitsLast : ((machine.cycles n none).machine.cycle none).output.length ≤
              limit - (machine.cycles n none).output.length := by omega
          have last : machine.cycleAfter (some limit) n = ((machine.cycles n none).machine.cycle
              none).within (limit - (machine.cycles n none).output.length) := by
            rw [cycleAfter, same]
            exact cycle_of_fits fitsLast
          rw [cycles_succ_of_passed passedToo, cycles_succ_of_passed passed, last, same,
            cycleAfter_unlimited]
          simp [Outcome.within, String.length_append, Nat.sub_sub]

/-- Text beyond the limit comes from one of the cycles, before which it still fits. -/
theorem exists_crossing (overflow : limit < (machine.cycles n none).output.length) :
    ∃ k < n, (machine.cycles k none).output.length ≤ limit ∧
      limit < (machine.cycles (k + 1) none).output.length := by
  induction n with
  | zero => contradiction
  | succ n inductionHypothesis =>
      by_cases before : limit < (machine.cycles n none).output.length
      · obtain ⟨k, below, crossing⟩ := inductionHypothesis before
        exact ⟨k, Nat.lt_succ_of_lt below, crossing⟩
      · exact ⟨n, Nat.lt_succ_self n, Nat.not_lt.mp before, overflow⟩

theorem passed_of_crossing (fits : (machine.cycles k none).output.length ≤ limit)
    (overflow : limit < (machine.cycles (k + 1) none).output.length) :
    (machine.cycles k none).fault = none := by
  cases passed : (machine.cycles k none).fault with
  | none => rfl
  | some fault =>
      rw [cycles_succ_of_faulted (by simp [passed])] at overflow
      exact absurd fits (Nat.not_le.mpr overflow)

theorem take_output_eq (atMost : k ≤ n) (reached : limit ≤ (machine.cycles k room).output.length) :
    (machine.cycles n room).output.toList.take limit =
      (machine.cycles k room).output.toList.take limit := by
  obtain ⟨rest, extended⟩ : (machine.cycles k room).output.toList <+: _ := output_isPrefix atMost
  rw [← String.length_toList] at reached
  rw [← extended, List.take_append_of_le_length reached]

/-- The cycle that takes the text beyond the limit is cut off, and nothing else of it remains. -/
theorem cycles_succ_of_crossing (fits : (machine.cycles k none).output.length ≤ limit)
    (overflow : limit < (machine.cycles (k + 1) none).output.length) :
    ∃ register value, (machine.cycles k none).machine.fetch = .ok (.prn register) ∧
      (machine.cycles k none).machine.get register = .ok value ∧
      (machine.cycles (k + 1) none).output =
        (machine.cycles k none).output ++ (toString value.toNat ++ "\n") ∧
      machine.cycles (k + 1) (some limit) =
        { machine := (machine.cycles k none).machine
          room := some 0
          output := String.ofList ((machine.cycles (k + 1) none).output.toList.take limit)
          log := (machine.cycles k none).log
          fault := some .outputFull } := by
  have passed := passed_of_crossing fits overflow
  have same := cycles_of_fits fits
  have passedToo : (machine.cycles k (some limit)).fault = none := by
    simp [same, Outcome.within, passed]
  have extended : (machine.cycles (k + 1) none).output = (machine.cycles k none).output ++
      ((machine.cycles k none).machine.cycle none).output := by
    rw [cycles_succ_of_passed passed, cycleAfter_unlimited]
  have last : machine.cycleAfter (some limit) k = (machine.cycles k none).machine.cycle
      (some (limit - (machine.cycles k none).output.length)) := by
    rw [cycleAfter, same]
    rfl
  rw [extended, String.length_append] at overflow
  have beyond : limit - (machine.cycles k none).output.length <
      ((machine.cycles k none).machine.cycle none).output.length := by omega
  obtain ⟨register, value, fetched, named, printed, cut⟩ := cycle_of_overflow beyond
  refine ⟨register, value, fetched, named, extended.trans (congrArg _ printed), ?_⟩
  -- All that was printed before counts, and of the rest as much as there is room for.
  have written : (machine.cycles (k + 1) none).output.toList.take limit =
      (machine.cycles k none).output.toList ++
        ((machine.cycles k none).machine.cycle none).output.toList.take
          (limit - (machine.cycles k none).output.length) := by
    rw [← String.length_toList] at fits ⊢
    rw [extended, String.toList_append, List.take_append, List.take_of_length_le fits]
  rw [cycles_succ_of_passed passedToo, last, cut, same, written]
  simp [Outcome.within, String.ofList_append]

/-- Cycles whose text is at most `limit` characters, each of them one byte, are the same in an output
that takes no more. Otherwise they end with the first number whose text goes beyond the limit. It has
been written up to the limit, while the machine and the log are those before it. -/
theorem cycles_in_limited_room (machine : Machine size) (n limit : Nat) :
    let free := machine.cycles n none
    (∀ c ∈ free.output.toList, c.utf8Size = 1) ∧
    (free.output.length ≤ limit →
      ∀ k ≤ n, machine.cycles k (some limit) = (machine.cycles k none).within limit) ∧
    (limit < free.output.length →
      ∃ k < n, ∃ register value,
        let before := machine.cycles k none
        let cut : Outcome size :=
          { machine := before.machine
            room := some 0
            output := String.ofList (free.output.toList.take limit)
            log := before.log
            fault := some .outputFull }
        before.fault = none ∧
        (∀ j ≤ k, (machine.cycles j none).output.length ≤ limit ∧
          machine.cycles j (some limit) = (machine.cycles j none).within limit) ∧
        before.machine.fetch = .ok (.prn register) ∧ before.machine.get register = .ok value ∧
        limit < (before.output ++ (toString value.toNat ++ "\n")).length ∧
        machine.cycles (k + 1) (some limit) = cut ∧ machine.cycles n (some limit) = cut) := by
  intro free
  refine ⟨fun c among => utf8Size_of_mem_output_cycles among, ?_, ?_⟩
  · intro fits k atMost
    exact cycles_of_fits (Nat.le_trans (output_length_le atMost) fits)
  · intro overflow
    obtain ⟨k, below, fits, crossing⟩ := exists_crossing overflow
    obtain ⟨register, value, fetched, named, printed, ended⟩ :=
      cycles_succ_of_crossing fits crossing
    rw [← take_output_eq below (Nat.le_of_lt crossing)] at ended
    rw [printed] at crossing
    have faulted : (machine.cycles (k + 1) (some limit)).fault.isSome := by
      rw [ended]
      rfl
    refine ⟨k, below, register, value, passed_of_crossing fits (by rwa [printed]), ?_, fetched,
      named, crossing, ended, (cycles_of_faulted faulted below).trans ended⟩
    intro j atMost
    have fitsSoFar := Nat.le_trans (output_length_le atMost) fits
    exact ⟨fitsSoFar, cycles_of_fits fitsSoFar⟩

/-- Of two lines `42` an output of five characters takes the second one without its end. -/
theorem cycles_in_limited_room_line_end :
    let machine : Machine 8 :=
      { memory := ⟨#v[0x47, 0, 0x47, 0, 1, 0, 0, 0]⟩, general := #v[42, 0, 0, 0, 0, 0, 0, 0] }
    let limited := machine.cycles 3 (some 5)
    5 < (machine.cycles 3 none).output.length ∧ limited.fault = some .outputFull ∧
      limited.output = "42\n42" ∧
      (machine.cycles 3 none).output.length ≤ 6 ∧
      machine.cycles 3 (some 6) = (machine.cycles 3 none).within 6 := by
  intro machine limited
  have overflow : 5 < (machine.cycles 3 none).output.length := by decide
  have fits : (machine.cycles 3 none).output.length ≤ 6 := by decide
  obtain ⟨-, -, cutOff⟩ := cycles_in_limited_room machine 3 5
  obtain ⟨k, -, register, value, -, -, -, -, -, -, ended⟩ := cutOff overflow
  obtain ⟨-, whole, -⟩ := cycles_in_limited_room machine 3 6
  refine ⟨overflow, congrArg Outcome.fault ended, (congrArg Outcome.output ended).trans ?_, fits,
    whole fits 3 (Nat.le_refl 3)⟩
  show String.ofList ((machine.cycles 3 none).output.toList.take 5) = "42\n42"
  decide

end Machine

end EightBit
