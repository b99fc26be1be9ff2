import Polyphony.Text.Marks
import Polyphony.Text.Pictures

namespace Polyphony.Text

def wide : CharSet where
  ranges := #[(0x1100, 0x115F), (0x231A, 0x231B), (0x2329, 0x232A), (0x23E9, 0x23EC),
    (0x23F0, 0x23F0), (0x23F3, 0x23F3), (0x25FD, 0x25FE), (0x2614, 0x2615), (0x2648, 0x2653),
    (0x267F, 0x267F), (0x2693, 0x2693), (0x26A1, 0x26A1), (0x26AA, 0x26AB), (0x26BD, 0x26BE),
    (0x26C4, 0x26C5), (0x26CE, 0x26CE), (0x26D4, 0x26D4), (0x26EA, 0x26EA), (0x26F2, 0x26F3),
    (0x26F5, 0x26F5), (0x26FA, 0x26FA), (0x26FD, 0x26FD), (0x2705, 0x2705), (0x270A, 0x270B),
    (0x2728, 0x2728), (0x274C, 0x274C), (0x274E, 0x274E), (0x2753, 0x2755), (0x2757, 0x2757),
    (0x2795, 0x2797), (0x27B0, 0x27B0), (0x27BF, 0x27BF), (0x2B1B, 0x2B1C), (0x2B50, 0x2B50),
    (0x2B55, 0x2B55), (0x2E80, 0x2E99), (0x2E9B, 0x2EF3), (0x2F00, 0x2FD5), (0x2FF0, 0x3029),
    (0x3030, 0x303E), (0x3041, 0x3096), (0x309B, 0x30FF), (0x3105, 0x312F), (0x3131, 0x3163),
    (0x3165, 0x318E), (0x3190, 0x31E3), (0x31EF, 0x321E), (0x3220, 0x3247), (0x3250, 0x4DBF),
    (0x4E00, 0xA48C), (0xA490, 0xA4C6), (0xA960, 0xA97C), (0xAC00, 0xD7A3), (0xF900, 0xFAFF),
    (0xFE10, 0xFE19), (0xFE30, 0xFE52), (0xFE54, 0xFE66), (0xFE68, 0xFE6B), (0xFF01, 0xFF60),
    (0xFFE0, 0xFFE6), (0x16FE0, 0x16FE3), (0x16FF0, 0x16FF1), (0x17000, 0x187F7),
    (0x18800, 0x18CD5), (0x18D00, 0x18D08), (0x1AFF0, 0x1AFF3), (0x1AFF5, 0x1AFFB),
    (0x1AFFD, 0x1AFFE), (0x1B000, 0x1B122), (0x1B132, 0x1B132), (0x1B150, 0x1B152),
    (0x1B155, 0x1B155), (0x1B164, 0x1B167), (0x1B170, 0x1B2FB), (0x1F004, 0x1F004),
    (0x1F0CF, 0x1F0CF), (0x1F18E, 0x1F18E), (0x1F191, 0x1F19A), (0x1F200, 0x1F202),
    (0x1F210, 0x1F23B), (0x1F240, 0x1F248), (0x1F250, 0x1F251), (0x1F260, 0x1F265),
    (0x1F300, 0x1F320), (0x1F32D, 0x1F335), (0x1F337, 0x1F37C), (0x1F37E, 0x1F393),
    (0x1F3A0, 0x1F3CA), (0x1F3CF, 0x1F3D3), (0x1F3E0, 0x1F3F0), (0x1F3F4, 0x1F3F4),
    (0x1F3F8, 0x1F43E), (0x1F440, 0x1F440), (0x1F442, 0x1F4FC), (0x1F4FF, 0x1F53D),
    (0x1F54B, 0x1F54E), (0x1F550, 0x1F567), (0x1F57A, 0x1F57A), (0x1F595, 0x1F596),
    (0x1F5A4, 0x1F5A4), (0x1F5FB, 0x1F64F), (0x1F680, 0x1F6C5), (0x1F6CC, 0x1F6CC),
    (0x1F6D0, 0x1F6D2), (0x1F6D5, 0x1F6D7), (0x1F6DC, 0x1F6DF), (0x1F6EB, 0x1F6EC),
    (0x1F6F4, 0x1F6FC), (0x1F7E0, 0x1F7EB), (0x1F7F0, 0x1F7F0), (0x1F90C, 0x1F93A),
    (0x1F93C, 0x1F945), (0x1F947, 0x1F9FF), (0x1FA70, 0x1FA7C), (0x1FA80, 0x1FA88),
    (0x1FA90, 0x1FABD), (0x1FABF, 0x1FAC5), (0x1FACE, 0x1FADB), (0x1FAE0, 0x1FAE8),
    (0x1FAF0, 0x1FAF8), (0x20000, 0x2FFFD), (0x30000, 0x3FFFD)]

/-- The characters that take no column, besides marks. -/
def hidden : CharSet where
  ranges := #[(0xAD, 0xAD), (0x605, 0x605), (0x61C, 0x61C), (0x70F, 0x70F), (0x890, 0x891),
    (0x8E2, 0x8E2), (0xD4E, 0xD4E), (0x1160, 0x11FF), (0x180E, 0x180E), (0x200B, 0x200B),
    (0x200D, 0x200F), (0x202A, 0x202E), (0x2060, 0x206F), (0x3164, 0x3164), (0xA8FA, 0xA8FA),
    (0xD7B0, 0xD7C6), (0xD7CB, 0xD7FB), (0xFEFF, 0xFEFF), (0xFFA0, 0xFFA0), (0xFFF0, 0xFFF8),
    (0x111C2, 0x111C3), (0x1171E, 0x1171E), (0x1193F, 0x1193F), (0x11941, 0x11941),
    (0x11A3A, 0x11A3A), (0x11A84, 0x11A89), (0x11D46, 0x11D46), (0x11F02, 0x11F02),
    (0x1BCA0, 0x1BCA3), (0x1D173, 0x1D17A), (0xE0000, 0xE001F), (0xE0080, 0xE00FF),
    (0xE01F0, 0xE0FFF)]

def subjoinable : CharSet where
  ranges := #[(0x1780, 0x1782), (0x1784, 0x1787), (0x1789, 0x178C), (0x178E, 0x1793),
    (0x1795, 0x1798), (0x179B, 0x179D), (0x17A0, 0x17A0), (0x17A2, 0x17A2), (0x17A7, 0x17A7),
    (0x17AB, 0x17AC), (0x17AF, 0x17AF)]

/-- The invisible characters that may stand between such a letter and the sign in front of it. -/
def transparent : CharSet where
  ranges := #[(0x34F, 0x34F), (0x17B4, 0x17B5), (0x180B, 0x180D), (0x180F, 0x180F),
    (0x200D, 0x200D), (0xFE00, 0xFE0F), (0xE0100, 0xE01EF)]

def isNarrowedByTextSign (c : Char) : Bool :=
  emoji.contains c && selectable.contains c && !(0x1F200 ≤ c.toNat && c.toNat < 0x1F300)

def charColumns (c : Char) : Nat :=
  if c.toNat ≤ 0xA0 then 1
  else if c = '\u17d8' then 3
  else if c = '\u17a4' then 2
  else if hidden.contains c || marks.contains c && !columnMarks.contains c then 0
  else if wide.contains c then 2
  else 1

/-- What comes right after a character in a cluster, as far as the columns of both depend on it. -/
inductive Sequel
  | plain
  | lineFeed
  | subjoinable
  | tone
  | emoji
  | textSign
  | pictureSign
  /-- A joiner and a picture, which stands for the pictures before it too. -/
  | joined
  | joinedPictureSign
  | joinedKeycap
  | joinedFlagLetter
  /-- The end of the name of a flag, in which so many digits stand in front of so many letters. -/
  | joinedName (digits letters : Nat)

namespace Sequel

def ofChar (c : Char) : Sequel :=
  if c.toNat ≤ 0xA0 then if c = '\n' then lineFeed else plain
  else if c = Text.textSign then textSign
  else if c = Text.pictureSign then pictureSign
  else if tones.contains c then tone
  else if flagLetters.contains c then plain
  else if Text.emoji.contains c then emoji
  else if Text.subjoinable.contains c then subjoinable
  else plain

/-- The sequel that a character and the one after it are together, and the columns of both, given
those of the sequel. There is none where the character is to be read by itself. -/
def join? (c : Char) (columns : Nat) : Sequel → Option (Nat × Sequel)
  | plain => none
  | lineFeed => if c = '\r' then some (columns, plain) else none
  | subjoinable =>
    if c = '\u17d2' then some (columns - 1, plain)
    else if transparent.contains c then some (columns, subjoinable)
    else none
  | tone =>
    if persons.contains c then some (columns, emoji)
    else if c = joiner then some (columns, joined)
    else none
  | emoji => if c = joiner then some (columns, joined) else none
  | textSign => if isNarrowedByTextSign c then some (columns + 1, plain) else none
  | pictureSign => if selectable.contains c then some (columns + 2, emoji) else none
  | joined =>
    if c = Text.pictureSign then some (columns, joinedPictureSign)
    else if c = '\u20e3' then some (columns, joinedKeycap)
    else if flagLetters.contains c then some (columns + 1, joinedFlagLetter)
    else if tones.contains c then some (columns, tone)
    else if c = nameEnd then some (columns, joinedName 0 0)
    else if Text.emoji.contains c then some (columns, emoji)
    else none
  | joinedPictureSign => if selectable.contains c then some (columns, emoji) else none
  | joinedKeycap => if c = Text.pictureSign then some (columns, joinedPictureSign) else none
  | joinedFlagLetter => if flagLetters.contains c then some (columns - 1, plain) else none
  | joinedName digits letters =>
    if nameLetters.contains c && digits = 0 && letters < 6 then
      some (columns, joinedName 0 (letters + 1))
    else if nameDigits.contains c && if digits = 0 then letters < 5 else digits < 3 then
      some (columns, joinedName (digits + 1) letters)
    else if c = namedFlag && if digits = 0 then 3 ≤ letters else digits = 3 then
      some (columns, emoji)
    else none

end Sequel

/-- How many columns a cluster takes. It is read from its end, because the columns of a character
depend on what comes after it. -/
def columns (cluster : List Char) : Nat :=
  (cluster.foldr read (0, .plain)).1
where
  read (c : Char) : Nat × Sequel → Nat × Sequel
    | (n, sequel) => (sequel.join? c n).getD (n + charColumns c, .ofChar c)

end Polyphony.Text
