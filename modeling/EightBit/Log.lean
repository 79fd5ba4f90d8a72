/-!
The log. Each part of the library has its own type of entries; what they share is a level, the name
of the part that speaks, and a message. A threshold only leaves entries out: it changes neither
those it keeps nor their order.
-/

namespace EightBit.Log

/-- How urgent an entry is, the most urgent level first. -/
inductive Level where
  | error
  | warn
  | info
  | debug
  | trace
  deriving DecidableEq, Repr

def Level.rank : Level → Nat
  | error => 1
  | warn => 2
  | info => 3
  | debug => 4
  | trace => 5

def Level.name : Level → String
  | error => "ERROR"
  | warn => "WARN"
  | info => "INFO"
  | debug => "DEBUG"
  | trace => "TRACE"

/-- The least urgent level that is kept; `none` keeps nothing. -/
abbrev Threshold := Option Level

def Threshold.admits (threshold : Threshold) (level : Level) : Bool :=
  threshold.any fun least => level.rank ≤ least.rank

structure Record where
  level : Level
  target : String
  message : String
  deriving DecidableEq, Repr

class Entry (α : Type) where
  level : α → Level
  target : α → String
  message : α → String

variable {α : Type} [Entry α]

def record (entry : α) : Record :=
  ⟨Entry.level entry, Entry.target entry, Entry.message entry⟩

def records (threshold : Threshold) (entries : List α) : List Record :=
  (entries.filter fun entry => threshold.admits (Entry.level entry)).map record

theorem records_append (threshold : Threshold) (first second : List α) :
    records threshold (first ++ second) = records threshold first ++ records threshold second := by
  rw [records, List.filter_append, List.map_append]
  rfl

theorem records_of_admitted {threshold : Threshold} {entries : List α}
    (admitted : ∀ entry ∈ entries, threshold.admits (Entry.level entry) = true) :
    records threshold entries = entries.map record := by
  rw [records, List.filter_eq_self.mpr admitted]

theorem records_trace (entries : List α) : records (some .trace) entries = entries.map record := by
  have admitted : ∀ level : Level, Threshold.admits (some .trace) level = true := by
    intro level
    cases level <;> rfl
  exact records_of_admitted fun entry _ => admitted (Entry.level entry)

end EightBit.Log
