import Polyphony.Text.Marks
import Polyphony.Text.Pictures
import Polyphony.Text.Syllables

namespace Polyphony.Text

inductive Bond
  | carriageReturn
  | lineFeed
  | control
  | joiner
  | mark
  | follower
  | opener
  | consonant
  | picture
  | flagLetter
  | lead
  | vowel
  | trail
  | openBlock
  | closedBlock
  | none
  deriving DecidableEq

namespace Bond

def ofChar (c : Char) : Bond :=
  if ' ' ≤ c ∧ c ≤ '~' then none
  else if c = '\r' then carriageReturn
  else if c = '\n' then lineFeed
  else if controls.contains c then control
  else if c = Text.joiner then joiner
  else if marks.contains c then mark
  else if followers.contains c then follower
  else if openers.contains c then opener
  else if consonants.contains c then consonant
  else if pictures.contains c then picture
  else if flagLetters.contains c then flagLetter
  else if leads.contains c then lead
  else if vowels.contains c then vowel
  else if trails.contains c then trail
  else if blocks.contains c then if isOpenBlock c then openBlock else closedBlock
  else none

end Bond

/-- What a cluster ends in that a character further on may complete. -/
inductive Pending
  | nothing
  | picture
  | joinedPicture
  | consonant
  | linkedConsonant
  | flagLetter
  deriving DecidableEq

/-- Marks leave a picture or a consonant pending. -/
def Pending.next (p : Pending) (c : Char) : Bond → Pending
  | .picture => picture
  | .consonant => consonant
  | .flagLetter => if p = flagLetter then nothing else flagLetter
  | .joiner =>
    match p with
    | picture => joinedPicture
    | consonant => consonant
    | linkedConsonant => linkedConsonant
    | _ => nothing
  | .mark =>
    match p with
    | picture => picture
    | consonant =>
      if linkers.contains c then linkedConsonant else if c = nonJoiner then nothing else consonant
    | linkedConsonant => if c = nonJoiner then nothing else linkedConsonant
    | _ => nothing
  | _ => nothing

structure Place where
  bond : Bond
  pending : Pending

namespace Place

def start : Place := ⟨.control, .nothing⟩

def next (p : Place) (c : Char) : Place :=
  let bond := Bond.ofChar c
  ⟨bond, p.pending.next c bond⟩

def continues (p : Place) (c : Char) : Bool :=
  match p.bond, Bond.ofChar c with
  | .carriageReturn, .lineFeed => true
  | .carriageReturn, _ | .lineFeed, _ | .control, _ => false
  | _, .carriageReturn | _, .lineFeed | _, .control => false
  | .lead, .lead | .lead, .vowel | .lead, .openBlock | .lead, .closedBlock => true
  | .openBlock, .vowel | .openBlock, .trail | .vowel, .vowel | .vowel, .trail => true
  | .closedBlock, .trail | .trail, .trail => true
  | _, .joiner | _, .mark | _, .follower => true
  | .opener, _ => true
  | _, .consonant => p.pending = .linkedConsonant
  | _, .picture => p.pending = .joinedPicture
  | _, .flagLetter => p.pending = .flagLetter
  | _, _ => false

/-- What goes on with the cluster before a text, and the clusters of the rest. -/
def split (p : Place) : List Char → List Char × List (List Char)
  | [] => ([], [])
  | c :: cs =>
    let (cluster, rest) := (p.next c).split cs
    bif p.continues c then (c :: cluster, rest) else ([], (c :: cluster) :: rest)

theorem split_flatten (p : Place) (cs : List Char) :
    (p.split cs).1 ++ (p.split cs).2.flatten = cs := by
  induction cs generalizing p with
  | nil => rfl
  | cons c cs ih =>
    cases h : p.continues c <;> simp [split, h, ih]

theorem start_continues (c : Char) : start.continues c = false := by
  cases h : Bond.ofChar c <;> simp [continues, start, h]

end Place

/-- The clusters of a text: the shortest parts of it that are read as one sign. -/
def clusters (cs : List Char) : List (List Char) := (Place.start.split cs).2

theorem clusters_flatten (cs : List Char) : (clusters cs).flatten = cs := by
  have h := Place.split_flatten .start cs
  cases cs with
  | nil => rfl
  | cons c cs => simpa [clusters, Place.split, Place.start_continues] using h

end Polyphony.Text
