import DocLocale.Text.WidthTable

/-!
Display width in terminal columns. A single character has a width from the tables; in a string the
width of a character also depends on what follows it, so strings are measured from their end.
-/

set_option autoImplicit false
set_option relaxedAutoImplicit false

namespace DocLocale.Text

def inRun (c : Char) (lo hi : Nat) : Bool := lo ≤ c.toNat && c.toNat ≤ hi

/-- Control characters have no width of their own. -/
def isControl (c : Char) : Bool := c.toNat < 0x20 || inRun c 0x7F 0x9F

/-- The columns of one character that is no control character. -/
def tableWidth (c : Char) : Nat :=
  if c.toNat < 0xA0 then 1
  else if c.toNat == 0x17D8 then 3
  else if zeroWidth.mem c then 0
  else if doubleWidth.mem c then 2
  else 1

/-- The columns of one character; control characters take none. -/
def charWidth (c : Char) : Nat := if isControl c then 0 else tableWidth c

/-- Letters that can merge with the letter before them. -/
inductive Merging
  | alef | lamed | buginese | bugineseVowel | tifinagh | tifinaghJoined | lisu | turkic | khmer
  | kiratE | kiratAi
  deriving DecidableEq, Repr

/-- What the text after a character means for its width. -/
inductive Ahead
  | plain
  | lineFeed
  | skinTone
  | indicator
  | indicators
  | emoji
  | joinedEmoji
  | joinedKeycap
  | joinedIndicator
  | joinedIndicatorsEven
  | joinedIndicatorsOdd
  /-- The closing part of a tag sequence: how many letters and digits it has so far, read from its
  end, and whether a letter has been read. -/
  | tags (letters digits : Nat)
  | merging (letter : Merging) (joined : Bool)
  deriving DecidableEq, Repr

/-- A variation selector after a character. -/
inductive Selector
  | none | emoji | text
  deriving DecidableEq, Repr

/-- The context to the right of a character. -/
structure Following where
  ahead : Ahead := .plain
  selector : Selector := .none
  deriving DecidableEq, Repr

def isIndicator (c : Char) : Bool := inRun c 0x1F1E6 0x1F1FF
def isSkinTone (c : Char) : Bool := inRun c 0x1F3FB 0x1F3FF
def isTifinagh (c : Char) : Bool := inRun c 0x2D31 0x2D65 || c.toNat == 0x2D6F

def isAlef (c : Char) : Bool :=
  [0x622, 0x623, 0x625, 0x627, 0x671, 0x672, 0x673, 0x675, 0x773, 0x774].contains c.toNat ||
    inRun c 0x870 0x882

def isLam (c : Char) : Bool :=
  [0x644, 0x76A, 0x8A6, 0x8C7].contains c.toNat || inRun c 0x6B5 0x6B8

def isKhmerBase (c : Char) : Bool :=
  inRun c 0x1780 0x1782 || inRun c 0x1784 0x1787 || inRun c 0x1789 0x178C || inRun c 0x178E 0x1793 ||
    inRun c 0x1795 0x1798 || inRun c 0x179B 0x179D || inRun c 0x17AB 0x17AC ||
    [0x17A0, 0x17A2, 0x17A7, 0x17AF].contains c.toNat

def isTransparent (c : Char) : Bool :=
  [0x34F, 0x17B4, 0x17B5, 0x180B, 0x180C, 0x180D, 0x180F, 0x200D].contains c.toNat ||
    inRun c 0xFE00 0xFE0F || inRun c 0xE0100 0xE01EF

def breaksJoining (c : Char) : Bool :=
  [0x200C, 0x605, 0x70F, 0x890, 0x891, 0x8E2].contains c.toNat || inRun c 0x1160 0x11FF ||
    inRun c 0x2066 0x2069 || inRun c 0xD7B0 0xD7FB

def isIdeographicSymbol (c : Char) : Bool :=
  inRun c 0x3000 0x303F || inRun c 0x3200 0x32FF || inRun c 0x1F200 0x1F2FF

/-- The width of a character and the context it gives, from the tables alone. -/
def ownWidth (c : Char) : Nat × Ahead :=
  let n := c.toNat
  if n == 0x5DC then (1, .merging .lamed false)
  else if isAlef c then (1, .merging .alef false)
  else if isKhmerBase c then (1, .merging .khmer false)
  else if n == 0x1A10 then (1, .merging .buginese false)
  else if isTifinagh c then (1, .merging .tifinagh false)
  else if n == 0xA4FC || n == 0xA4FD then (1, .merging .lisu false)
  else if n == 0x10C03 then (1, .merging .turkic false)
  else if n == 0x16D67 then (1, .merging .kiratE false)
  else if n == 0x16D68 then (1, .merging .kiratAi false)
  else if isIndicator c then (1, .indicator)
  else if isSkinTone c then (2, .skinTone)
  else if emojiByDefault.mem c then (2, .emoji)
  else (tableWidth c, .plain)

/-- How a letter merges with the character `c` before it: the columns `c` adds and the new context. -/
def mergeStep (letter : Merging) (joined : Bool) (c : Char) : Option (Int × Ahead) :=
  let n := c.toNat
  match letter with
  | .alef =>
    if isLam c then some (0, .plain)
    else if n ≥ 0xA0 && tableWidth c == 0 && !breaksJoining c then some (0, .merging .alef joined)
    else none
  | .lamed => if joined && n == 0x5D0 then some (0, .plain) else none
  | .khmer => if n == 0x17D2 then some (-1, .plain) else none
  | .buginese =>
    if joined && n == 0x1A17 then some (0, .merging .bugineseVowel false) else none
  | .bugineseVowel => if n == 0x1A15 then some (0, .plain) else none
  | .tifinagh =>
    if n == 0x2D7F then some (1, .merging .tifinaghJoined false)
    else if joined && isTifinagh c then some (0, .plain)
    else none
  | .tifinaghJoined => if isTifinagh c then some (-1, .plain) else none
  | .lisu => if inRun c 0xA4F8 0xA4FB then some (0, .plain) else none
  | .turkic => if joined && n == 0x10C32 then some (0, .plain) else none
  | .kiratE =>
    if n == 0x16D63 then some (0, .plain)
    else if n == 0x16D67 then some (0, .merging .kiratAi false)
    else if n == 0x16D68 then some (1, .merging .kiratE false)
    else none
  | .kiratAi => if n == 0x16D63 then some (0, .plain) else none

/-- How the emoji context ahead takes in the character `c` before it. -/
def emojiStep (ahead : Ahead) (c : Char) : Option (Int × Ahead) :=
  let n := c.toNat
  match ahead with
  | .skinTone =>
    if modifierBase.mem c then some (0, .emoji)
    else if n == 0x200D then some (0, .joinedEmoji)
    else none
  | .indicator => if isIndicator c then some (1, .indicators) else none
  | .indicators =>
    if isIndicator c then some (1, .indicators)
    else if n == 0x200D then some (0, .joinedEmoji)
    else none
  | .emoji => if n == 0x200D then some (0, .joinedEmoji) else none
  | .joinedIndicator | .joinedIndicatorsOdd =>
    if isIndicator c then some (-1, .joinedIndicatorsEven)
    else if n == 0x200D then some (0, .joinedEmoji)
    else none
  | .joinedIndicatorsEven =>
    if isIndicator c then some (3, .joinedIndicatorsOdd)
    else if n == 0x200D then some (0, .joinedEmoji)
    else none
  | .joinedEmoji =>
    if n == 0x20E3 then some (0, .joinedKeycap)
    else if isIndicator c then some (1, .joinedIndicator)
    else if isSkinTone c then some (0, .skinTone)
    else if n == 0xE007F then some (0, .tags 0 0)
    else if emojiByDefault.mem c then some (0, .emoji)
    else none
  | .tags letters digits =>
    if inRun c 0xE0061 0xE007A && letters < 6 then some (0, .tags (letters + 1) digits)
    else if inRun c 0xE0030 0xE0039 && letters == 0 && digits < 3 then some (0, .tags 0 (digits + 1))
    else if n == 0x1F3F4 && (letters ≥ 3 || digits == 3) then some (0, .emoji)
    else none
  | _ => none

/-- The columns a character adds in front of the given context, and the context it leaves. -/
def widthBefore (c : Char) (next : Following) : Int × Following :=
  let next :=
    if next.selector = .emoji && !emojiCapable.mem c then
      match next.ahead with
      | .merging letter joined => ⟨.merging letter joined, .none⟩
      | _ => ⟨.plain, .none⟩
    else next
  if next.selector = .emoji then
    (if next.ahead = .joinedEmoji || next.ahead = .joinedKeycap then 0 else 2, ⟨.emoji, .none⟩)
  else if c.toNat ≤ 0xA0 then
    if c == '\n' then (1, ⟨.lineFeed, .none⟩)
    else if c == '\r' && next.ahead = .lineFeed then (0, ⟨.plain, .none⟩)
    else (1, ⟨.plain, .none⟩)
  else if c.toNat == 0xFE0F then
    match next.ahead with
    | .merging letter joined => (0, ⟨.merging letter joined, .emoji⟩)
    | .joinedEmoji => (0, ⟨.joinedEmoji, .emoji⟩)
    | .joinedKeycap => (0, ⟨.joinedKeycap, .emoji⟩)
    | _ => (0, ⟨.plain, .emoji⟩)
  else if c.toNat == 0xFE0E then
    match next.ahead with
    | .merging letter joined => (0, ⟨.merging letter joined, .text⟩)
    | _ => (0, ⟨.plain, .text⟩)
  else if next.selector = .text && emojiCapable.mem c && !isIdeographicSymbol c then
    (1, ⟨.plain, .none⟩)
  else
    let own := ownWidth c
    match next.ahead with
    | .merging letter joined =>
      if c.toNat == 0x200D then (0, ⟨.merging letter true, .none⟩)
      else if isTransparent c then (0, ⟨.merging letter joined, .none⟩)
      else
        match mergeStep letter joined c with
        | some (columns, ahead) => (columns, ⟨ahead, .none⟩)
        | none => (own.1, ⟨own.2, .none⟩)
    | ahead =>
      match emojiStep ahead c with
      | some (columns, ahead) => (columns, ⟨ahead, .none⟩)
      | none => (own.1, ⟨own.2, .none⟩)

/-- Width and left context of a text, measured from its end. -/
def measure : List Char → Int × Following
  | [] => (0, ⟨.plain, .none⟩)
  | c :: cs =>
    let (total, next) := measure cs
    let (columns, context) := widthBefore c next
    (total + columns, context)

/-- The number of columns a text takes on one line. -/
def width (cs : List Char) : Nat := (measure cs).1.toNat

end DocLocale.Text
