/-
The number of columns that a text takes. Most characters take the same columns wherever they stand,
but some form one sign with their neighbours: a line break of two characters, letters that are
written as a ligature, a character with a selector of its form, and emoji that are joined, toned or
spelled by several characters. The text is therefore read from its end, and what has been read is
remembered as far as it matters to the character in front of it.
-/
import Residual.Text.Columns
import Residual.Text.Emoji

namespace Residual.Text

/-! ## What follows a character -/

/-- The end of a ligature. -/
inductive Ligature where
  /-- An Arabic alef, which may end a lam-alef. -/
  | alef
  /-- A Hebrew lamed, which may end an alef-lamed. -/
  | lamed
  /-- A Buginese ya, which may end a sign of three letters. -/
  | ya
  /-- A Buginese vowel sign that is joined to a ya. -/
  | vowelYa
  /-- A Tifinagh consonant, which may end a pair. -/
  | consonant
  /-- A Tifinagh consonant behind the joiner of pairs. -/
  | joinedConsonant
  /-- The second letter of a Lisu tone. -/
  | tone
  /-- An Old Turkic i, which may end a sign of two letters. -/
  | orkhonI
  /-- A Khmer letter that may be written below the one before it. -/
  | subscript
  deriving Repr, DecidableEq, Inhabited

/-- What the text behind a character begins with. -/
inductive Shape where
  /-- Nothing that matters. -/
  | plain
  | lineFeed
  /-- The end of a ligature; `isJoined` says that a joiner stands in front of it. -/
  | ligature (l : Ligature) (isJoined : Bool)
  /-- The Kirat Rai vowel sign e, which may be the last part of a longer one. -/
  | kiratE
  /-- The Kirat Rai vowel sign ai, or its parts. -/
  | kiratAi
  /-- A whole emoji. -/
  | emoji
  | skinTone
  | regional
  /-- Two or more regional indicators. -/
  | regionals
  /-- An emoji with a joiner in front of it. -/
  | joined
  /-- The sign of a key in front of a joined emoji. -/
  | joinedKey
  /-- One regional indicator in front of a joined emoji. -/
  | joinedRegional
  /-- Pairs of regional indicators in front of a joined emoji. -/
  | joinedPairs
  /-- Pairs of regional indicators and a single one in front of a joined emoji. -/
  | joinedPairsAndOne
  /-- The end of a flag that is spelled by tags, in front of a joined emoji. -/
  | joinedTags (letters digits : Nat)
  deriving Repr, DecidableEq, Inhabited

/-- A selector chooses a form of the character before it. -/
inductive Selector where
  | emoji
  | text
  | fullWidth
  deriving Repr, DecidableEq, Inhabited

/-- What comes behind a character: selectors for it, and then a shape. Several selectors count only
in front of a ligature, where none puts another one out of force. -/
structure Follow where
  selectors : List Selector
  shape : Shape
  deriving Repr, DecidableEq, Inhabited

def Follow.ofShape (s : Shape) : Follow := ⟨[], s⟩

/-! ## Characters of ligatures -/

def joiner : Char := '\u200d'

/-- Marks of which nothing is seen do not disturb a ligature. -/
def isUnseenMark (c : Char) : Bool :=
  inRanges [(0x034f, 0x034f), (0x17b4, 0x17b5), (0x180b, 0x180d), (0x180f, 0x180f),
    (0xfe00, 0xfe0f), (0xe0100, 0xe01ef)] c.toNat

/-- Characters without a column that break the joining of Arabic letters. -/
def breakingRanges : List (Nat × Nat) := [
  (0x0605, 0x0605), (0x0890, 0x0891), (0x08e2, 0x08e2), (0x09be, 0x09be), (0x09d7, 0x09d7),
  (0x0b3e, 0x0b3e), (0x0b57, 0x0b57), (0x0bbe, 0x0bbe), (0x0bd7, 0x0bd7), (0x0cc0, 0x0cc0),
  (0x0cc2, 0x0cc2), (0x0cc7, 0x0cc8), (0x0cca, 0x0ccb), (0x0cd5, 0x0cd6), (0x0d3e, 0x0d3e),
  (0x0d4e, 0x0d4e), (0x0d57, 0x0d57), (0x0dcf, 0x0dcf), (0x0ddf, 0x0ddf), (0x1160, 0x11ff),
  (0x1715, 0x1715), (0x1734, 0x1734), (0x180e, 0x180e), (0x1b35, 0x1b35), (0x1b3b, 0x1b3b),
  (0x1b3d, 0x1b3d), (0x1b43, 0x1b44), (0x1baa, 0x1baa), (0x1bf2, 0x1bf3), (0x200c, 0x200d),
  (0x2065, 0x2069), (0x302e, 0x302f), (0x3164, 0x3164), (0xa8fa, 0xa8fa), (0xa953, 0xa953),
  (0xa9c0, 0xa9c0), (0xd7b0, 0xd7c6), (0xd7cb, 0xd7fb), (0xffa0, 0xffa0), (0xfff0, 0xfff8),
  (0x111c0, 0x111c0), (0x111c2, 0x111c3), (0x11235, 0x11235), (0x1133e, 0x1133e),
  (0x1134d, 0x1134d), (0x11357, 0x11357), (0x113b8, 0x113b8), (0x113c2, 0x113c2),
  (0x113c5, 0x113c5), (0x113c7, 0x113c9), (0x113cf, 0x113cf), (0x113d1, 0x113d1),
  (0x114b0, 0x114b0), (0x114bd, 0x114bd), (0x115af, 0x115af), (0x116b6, 0x116b6),
  (0x11930, 0x11930), (0x1193d, 0x1193d), (0x1193f, 0x1193f), (0x11941, 0x11941),
  (0x11a84, 0x11a89), (0x11d46, 0x11d46), (0x11f02, 0x11f02), (0x11f41, 0x11f41),
  (0x16ff0, 0x16ff1), (0x1d165, 0x1d166), (0x1d16d, 0x1d172), (0xe0000, 0xe0000),
  (0xe0002, 0xe001f), (0xe0080, 0xe00ff), (0xe01f0, 0xe0fff)]

/-- Whether Arabic letters are joined across the character. -/
def isTransparent (c : Char) : Bool := isColumnless c && !inRanges breakingRanges c.toNat

def isAlef (c : Char) : Bool :=
  inRanges [(0x0622, 0x0623), (0x0625, 0x0625), (0x0627, 0x0627), (0x0671, 0x0673),
    (0x0675, 0x0675), (0x0773, 0x0774), (0x0870, 0x0882)] c.toNat

def isLam (c : Char) : Bool :=
  inRanges [(0x0644, 0x0644), (0x06b5, 0x06b8), (0x076a, 0x076a), (0x08a6, 0x08a6),
    (0x08c7, 0x08c7)] c.toNat

/-- Khmer letters that have a form below the letter before them. -/
def isSubscript (c : Char) : Bool :=
  inRanges [(0x1780, 0x1782), (0x1784, 0x1787), (0x1789, 0x178c), (0x178e, 0x1793),
    (0x1795, 0x1798), (0x179b, 0x179d), (0x17a0, 0x17a0), (0x17a2, 0x17a2), (0x17a7, 0x17a7),
    (0x17ab, 0x17ac), (0x17af, 0x17af)] c.toNat

def isTifinagh (c : Char) : Bool := inRanges [(0x2d31, 0x2d65), (0x2d6f, 0x2d6f)] c.toNat

/-! ## A character alone -/

/-- The shape with which a text begins that begins with the character. -/
def shapeOf (c : Char) : Shape :=
  if c = '\n' then .lineFeed
  else if c = '\u05dc' then .ligature .lamed false
  else if isAlef c then .ligature .alef false
  else if isSubscript c then .ligature .subscript false
  else if c = '\u1a10' then .ligature .ya false
  else if isTifinagh c then .ligature .consonant false
  else if c = '\ua4fc' || c = '\ua4fd' then .ligature .tone false
  else if c.toNat = 0x10c03 then .ligature .orkhonI false
  else if c.toNat = 0x16d67 then .kiratE
  else if c.toNat = 0x16d68 then .kiratAi
  else if isRegionalIndicator c then .regional
  else if isSkinTone c then .skinTone
  else if isEmoji c then .emoji
  else .plain

/-- The columns of a character that forms no sign with what follows it. -/
def alone (c : Char) : Int × Shape := (columns c, shapeOf c)

/-! ## Signs of several characters -/

/-- A character in front of the end of a ligature. -/
def beforeLigature (l : Ligature) (isJoined : Bool) (c : Char) : Option (Int × Shape) :=
  match l with
  | .alef =>
    if isLam c then some (0, .plain)
    else if isTransparent c then some (0, .ligature .alef isJoined)
    else none
  | .lamed => if isJoined && c = '\u05d0' then some (0, .plain) else none
  | .ya => if isJoined && c = '\u1a17' then some (0, .ligature .vowelYa true) else none
  | .vowelYa => if c = '\u1a15' then some (0, .plain) else none
  | .consonant =>
    if c = '\u2d7f' then some (1, .ligature .joinedConsonant true)
    else if isJoined && isTifinagh c then some (0, .plain)
    else none
  | .joinedConsonant => if isTifinagh c then some (-1, .plain) else none
  | .tone => if '\ua4f8' ≤ c && c ≤ '\ua4fb' then some (0, .plain) else none
  | .orkhonI => if isJoined && c.toNat = 0x10c32 then some (0, .plain) else none
  | .subscript => if c = '\u17d2' then some (-1, .plain) else none

/-- A character in front of the end of a flag that is spelled by tags. A region is spelled by at
least three letters or by three digits, and a part of it by up to three characters more. -/
def beforeTags (letters digits : Nat) (c : Char) : Option (Int × Shape) :=
  let n := c.toNat
  if 0xe0061 ≤ n && n ≤ 0xe007a && digits = 0 && letters < 6 then
    some (0, .joinedTags (letters + 1) 0)
  else if 0xe0030 ≤ n && n ≤ 0xe0039 && digits < 3 && (0 < digits || letters ≤ 4) then
    some (0, .joinedTags letters (digits + 1))
  else if n = 0x1f3f4 && (digits = 3 || (digits = 0 && 3 ≤ letters)) then some (0, .emoji)
  else none

/-- A character in front of a joined emoji, with which it forms one emoji if it can. -/
def beforeJoined (c : Char) : Option (Int × Shape) :=
  if c = '\u20e3' then some (0, .joinedKey)
  else if isRegionalIndicator c then some (1, .joinedRegional)
  else if isSkinTone c then some (0, .skinTone)
  else if c.toNat = 0xe007f then some (0, .joinedTags 0 0)
  else if isEmoji c then some (0, .emoji)
  else none

/-- The columns that a character adds in front of a shape with which it forms one sign, and the
shape of the whole. A character may take columns back that were counted for the others. -/
def combine? (next : Shape) (c : Char) : Option (Int × Shape) :=
  match next with
  | .plain | .lineFeed | .joinedKey => none
  | .ligature l isJoined => beforeLigature l isJoined c
  | .kiratE =>
    match c.toNat with
    | 0x16d63 | 0x16d69 => some (0, .plain)
    | 0x16d67 => some (0, .kiratAi)
    | 0x16d68 => some (1, .kiratE)
    | _ => none
  | .kiratAi => if c.toNat = 0x16d63 then some (0, .plain) else none
  | .emoji => if c = joiner then some (0, .joined) else none
  | .skinTone =>
    if isToneBase c then some (0, .emoji) else if c = joiner then some (0, .joined) else none
  | .regional => if isRegionalIndicator c then some (1, .regionals) else none
  | .regionals =>
    if isRegionalIndicator c then some (1, .regionals)
    else if c = joiner then some (0, .joined)
    else none
  | .joined => beforeJoined c
  | .joinedRegional => if isRegionalIndicator c then some (-1, .joinedPairs) else none
  | .joinedPairs =>
    if isRegionalIndicator c then some (3, .joinedPairsAndOne)
    else if c = joiner then some (0, .joined)
    else none
  | .joinedPairsAndOne =>
    if isRegionalIndicator c then some (-1, .joinedPairs)
    else if c = joiner then some (0, .joined)
    else none
  | .joinedTags letters digits => beforeTags letters digits c

/-! ## Selectors -/

/-- Whether the shape ends a ligature, which stays in reach across selectors. -/
def Shape.isLigature : Shape → Bool
  | .ligature .. => true
  | _ => false

/-- Whether the shape stays in reach across a selector. A joined emoji does so across the selector
of the form of an emoji. -/
def Shape.isInReach (s : Selector) (shape : Shape) : Bool :=
  shape.isLigature || s = .emoji && (shape = .joined || shape = .joinedKey)

def selector? (c : Char) : Option Selector :=
  match c with
  | '\ufe0f' => some .emoji
  | '\ufe0e' => some .text
  | '\ufe01' => some .fullWidth
  | _ => none

/-- Columns of a character in the form that a selector gives it, if there is such a form. -/
def select? (s : Selector) (next : Shape) (c : Char) : Option (Int × Shape) :=
  match s with
  | .emoji =>
    if hasEmojiForm c then some (if next = .joined || next = .joinedKey then 0 else 2, .emoji)
    else none
  | .text => if hasNarrowForm c then some (1, .plain) else none
  | .fullWidth =>
    if ['\u2018', '\u2019', '\u201c', '\u201d'].contains c then some (2, .plain) else none

namespace Follow

/-- The character in the form that a selector in force gives it, if that selector has one for it. -/
def form? (next : Follow) (s : Selector) (c : Char) : Option (Int × Shape) :=
  if next.selectors.contains s then select? s next.shape c else none

/-- What is behind a character to which a selector does not apply. -/
def drop (next : Follow) (s : Selector) : Follow :=
  if next.selectors.contains s then
    ⟨next.selectors.filter (· != s), if next.shape.isLigature then next.shape else .plain⟩
  else next

/-- One more selector in front. -/
def push (next : Follow) (s : Selector) : Follow :=
  ⟨if next.shape.isLigature then s :: next.selectors else [s],
    if next.shape.isInReach s then next.shape else .plain⟩

end Follow

/-! ## Width -/

/-- Columns of a character in front of a shape that no selector hides. -/
def besideShape (next : Shape) (c : Char) : Int × Shape :=
  if c.toNat ≤ 0xa0 then
    if c = '\r' && next = .lineFeed then (0, .plain)
    else (1, if c = '\n' then .lineFeed else .plain)
  else
    match next with
    | .ligature .alef _ => (combine? next c).getD (alone c)
    | .ligature l isJoined =>
      if c = joiner then (0, .ligature l true)
      else if isUnseenMark c then (0, .ligature l isJoined)
      else (combine? next c).getD (alone c)
    | next => (combine? next c).getD (alone c)

/-- The columns that a character adds to the text behind it, and what the longer text begins with.
The form of an emoji is looked for first; the other selectors wait until no selector is in front of
them. -/
def step (c : Char) (next : Follow) : Int × Follow :=
  let ofShape : Int × Shape → Int × Follow := fun (n, s) => (n, .ofShape s)
  match next.form? .emoji c with
  | some r => ofShape r
  | none =>
    let next := next.drop .emoji
    match selector? c with
    | some s => (0, next.push s)
    | none =>
      match (next.form? .text c).orElse fun _ => next.form? .fullWidth c with
      | some r => ofShape r
      | none => ofShape (besideShape ((next.drop .text).drop .fullWidth).shape c)

/-- Columns of the characters of a text, and what the text begins with. -/
def measure (cs : List Char) : Int × Follow :=
  cs.foldr (fun c (n, next) => let (m, next) := step c next; (n + m, next)) (0, .ofShape .plain)

/-- Columns of a text. A text of ASCII characters counts its characters, also the ones that do not
move the cursor forward. -/
def width (s : String) : Nat :=
  if s.toList.all (·.toNat < 128) then s.utf8ByteSize else (measure s.toList).1.toNat

end Residual.Text
