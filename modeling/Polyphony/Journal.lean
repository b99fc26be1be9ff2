namespace Polyphony

inductive Level
  | error
  | warn
  | info
  | debug
  | trace
  deriving DecidableEq, Repr

namespace Level

def rank : Level → Nat
  | error => 1
  | warn => 2
  | info => 3
  | debug => 4
  | trace => 5

def name : Level → String
  | error => "ERROR"
  | warn => "WARN"
  | info => "INFO"
  | debug => "DEBUG"
  | trace => "TRACE"

end Level

structure Record where
  level : Level
  text : String
  deriving DecidableEq

structure Journal where
  /-- The least grave level that is kept; none keeps nothing. -/
  limit : Option Level
  /-- Oldest first. -/
  lines : List Record := []

namespace Journal

def capacity : Nat := 64

def admits (j : Journal) (level : Level) : Bool :=
  match j.limit with
  | none => false
  | some limit => level.rank ≤ limit.rank

/-- Appends a record, for which the oldest makes room. -/
def note (j : Journal) (r : Record) : Journal :=
  if j.admits r.level then
    let kept := if j.lines.length = capacity then j.lines.drop 1 else j.lines
    { j with lines := kept ++ [r] }
  else j

def noteAll (j : Journal) (records : List Record) : Journal :=
  records.foldl note j

def recent (j : Journal) (count : Nat) : List Record :=
  j.lines.drop (j.lines.length - count)

end Journal

end Polyphony
