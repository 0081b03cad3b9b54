import Lineage.Text.Glyph
set_option autoImplicit false

/-!
# How many places a text takes up

On a grid of equal places most characters take up one. Ideographs, syllables, signs that are drawn
in a square and pictures take up two; marks that are drawn over the character before them, and
invisible signs, take up none. Some characters are drawn as one: the letters of a ligature, the
parts of a picture, the two letters of a flag.

## Main definitions

* `Lineage.Text.placesOf`: the places of a character by itself.
* `Lineage.Text.Shape`, `Lineage.Text.After`: what follows a character.
* `Lineage.Text.step`: the places that a character adds before what follows it.
* `Lineage.Text.places`: the places of a text.

## Design

Whether a character is drawn as one with others shows at the last of them. So a text is walked from
its end, and what follows, as far as it matters, is carried along as the state. A character that
completes what follows adds no places, or takes one back.
-/

namespace Lineage.Text

/-! ### A character by itself -/

/-- The places of a character by itself. -/
def placesOf (c : Char) : Nat :=
  if c.toNat ≤ 0xA0 then 1
  else if isUnseen c then 0
  else if c = '\u17D8' then 3
  else if isSquare c then 2
  else 1

/-! ### What follows a character -/

/-- What follows the sign that joins pictures, or the parts of a picture after that sign. -/
inductive Joined where
  /-- A picture. -/
  | picture
  /-- The frame of a key, then a picture. -/
  | key
  /-- One letter of a flag, then a picture. -/
  | letter
  /-- An even number of letters of flags, then a picture. -/
  | letters
  /-- An odd number of letters of flags, more than one, then a picture. -/
  | unevenLetters
  /-- As many unseen letters as given, the end of the name of a flag, then a picture. -/
  | tagLetters (count : Nat)
  /-- As many unseen digits as given in the name of a flag, then a picture. -/
  | tagDigits (count : Nat)
  deriving DecidableEq

/-- What follows a character, as far as the character may be drawn as one with it. A letter is
`joined` when the sign that joins letters stands before it. -/
inductive Shape where
  /-- Nothing that matters. -/
  | nothing
  /-- The end of a line. -/
  | lineEnd
  /-- An alef. -/
  | alef
  /-- A lamed. -/
  | lamed (joined : Bool)
  /-- A letter that a sign puts below the one before. -/
  | stackable
  /-- The letter ya of the Buginese letters. -/
  | ya (joined : Bool)
  /-- The vowel i, then a joined ya. -/
  | vowelAndYa
  /-- A consonant of the Tifinagh letters. -/
  | tifinagh (joined : Bool)
  /-- The sign that joins Tifinagh consonants, then a consonant. -/
  | tifinaghPair
  /-- A low sign of tone. -/
  | lowTone
  /-- The letter i of the Orkhon letters. -/
  | orkhonI (joined : Bool)
  /-- The vowel e of the Kirat Rai letters. -/
  | kiratE
  /-- The vowel ai of the Kirat Rai letters. -/
  | kiratAi
  /-- A picture. -/
  | picture
  /-- A tint. -/
  | tint
  /-- One letter of a flag. -/
  | flagLetter
  /-- Letters of flags. -/
  | flagLetters
  /-- The sign that joins pictures, before a picture. -/
  | join (rest : Joined)
  deriving DecidableEq

/-- The two looks of a character that may be a picture. -/
inductive Look where
  /-- As a picture. -/
  | picture
  /-- As a plain character. -/
  | plain
  deriving DecidableEq

/-- What follows a character: a sign that asks for a look, if there is one, before a shape. -/
structure After where
  /-- The shape. -/
  shape : Shape
  /-- The look that is asked for. -/
  look : Option Look
  deriving DecidableEq

namespace Shape

/-- Whether what follows is letters that may be drawn as one with the letter before them. -/
def ofLetters : Shape → Bool
  | alef | lamed _ | stackable | ya _ | vowelAndYa | tifinagh _ | tifinaghPair | lowTone
  | orkhonI _ => true
  | _ => false

/-- Whether what follows is pictures, or keys, after the sign that joins them. -/
def awaitsPicture : Shape → Bool
  | join .picture | join .key => true
  | _ => false

/-- What a character is to the one before it. -/
def of (c : Char) : Shape :=
  if c.toNat < 0x300 then nothing
  else if isAlef c then alef
  else if c = '\u05DC' then lamed false
  else if isStackable c then stackable
  else if c = '\u1A10' then ya false
  else if isTifinagh c then tifinagh false
  else if isLowTone c then lowTone
  else if c.toNat = 0x10C03 then orkhonI false
  else if c.toNat = 0x16D67 then kiratE
  else if c.toNat = 0x16D68 then kiratAi
  else if isFlagLetter c then flagLetter
  else if isTint c then tint
  else if isPicture c then picture
  else nothing

/-- What letters are after the sign that joins letters. -/
def joinedUp : Shape → Shape
  | lamed _ => lamed true
  | ya _ => ya true
  | tifinagh _ => tifinagh true
  | orkhonI _ => orkhonI true
  | s => s

end Shape

namespace After

/-- A shape with no sign before it. -/
def plainly (s : Shape) : After := ⟨s, none⟩

/-- What follows a sign that asks for a picture. -/
def asPicture (a : After) : After :=
  ⟨if a.shape.ofLetters || a.shape.awaitsPicture then a.shape else .nothing, some .picture⟩

/-- What follows a sign that asks for a plain character. -/
def asPlain (a : After) : After :=
  ⟨if a.shape.ofLetters then a.shape else .nothing, some .plain⟩

/-- What follows when the sign that asks for a look, if there is one, is of no effect. -/
def withoutLook (a : After) : After :=
  if a.look.isNone then a else plainly (if a.shape.ofLetters then a.shape else .nothing)

end After

/-! ### Characters that are drawn as one with what follows -/

/-- The places that a character adds before an alef, and the new shape, if it is drawn as one with
it. -/
def joinAlef (c : Char) : Option (Int × Shape) :=
  if isLam c then some (0, .nothing)
  else if isOverlaid c then some (0, .alef)
  else none

/-- The places that a character adds before letters, and the new shape, if it is drawn as one with
them. -/
def joinLetters (c : Char) (s : Shape) : Option (Int × Shape) :=
  if c = '\u200D' then some (0, s.joinedUp)
  else if isIgnorable c then some (0, s)
  else
    match s with
    | .lamed true => if c = '\u05D0' then some (0, .nothing) else none
    | .stackable => if c = '\u17D2' then some (-1, .nothing) else none
    | .ya true => if c = '\u1A17' then some (0, .vowelAndYa) else none
    | .vowelAndYa => if c = '\u1A15' then some (0, .nothing) else none
    | .tifinagh joined =>
      if c = '\u2D7F' then some (1, .tifinaghPair)
      else if joined && isTifinagh c then some (0, .nothing)
      else none
    | .tifinaghPair => if isTifinagh c then some (-1, .nothing) else none
    | .lowTone => if isHighTone c then some (0, .nothing) else none
    | .orkhonI true => if c.toNat = 0x10C32 then some (0, .nothing) else none
    | _ => none

/-- The places that a character adds before the vowel e of the Kirat Rai letters, and the new
shape, if it is drawn as one with it. -/
def joinKiratE (c : Char) : Option (Int × Shape) :=
  if c.toNat = 0x16D63 || c.toNat = 0x16D69 then some (0, .nothing)
  else if c.toNat = 0x16D67 then some (0, .kiratAi)
  else if c.toNat = 0x16D68 then some (1, .kiratE)
  else none

/-- The places that a character adds before a joined picture, and the new shape, if it is drawn as
one with it. -/
def joinPicture (c : Char) : Option (Int × Shape) :=
  if c = '\u20E3' then some (0, .join .key)
  else if isFlagLetter c then some (1, .join .letter)
  else if isTint c then some (0, .tint)
  else if c.toNat = 0xE007F then some (0, .join (.tagLetters 0))
  else if isPicture c then some (0, .picture)
  else none

/-- The places that a character adds before the rest of an unseen name and a joined picture, and
the new shape, if it is drawn as one with them. A name is of three letters or more, or of three
digits, which at most four letters follow; it stands after a black flag. -/
def joinTag (c : Char) (letters digits : Nat) : Option (Int × Shape) :=
  if digits = 0 && letters < 6 && isTagLetter c then some (0, .join (.tagLetters (letters + 1)))
  else if digits < 3 && letters ≤ 4 && isTagDigit c then some (0, .join (.tagDigits (digits + 1)))
  else if (digits = 3 || digits = 0 && 3 ≤ letters) && c.toNat = 0x1F3F4 then some (0, .picture)
  else none

/-- The places that a character adds before the rest of a joined picture, and the new shape, if it
is drawn as one with it. -/
def joinRest (c : Char) : Joined → Option (Int × Shape)
  | .picture => joinPicture c
  | .key => none
  | .letter | .unevenLetters => if isFlagLetter c then some (-1, .join .letters) else none
  | .letters =>
    if isFlagLetter c then some (3, .join .unevenLetters)
    else if c = '\u200D' then some (0, .join .picture)
    else none
  | .tagLetters n => joinTag c n 0
  | .tagDigits n => joinTag c 0 n

/-- The places that a character adds before a shape, and the new shape, if it is drawn as one with
it. -/
def meet (c : Char) : Shape → Option (Int × Shape)
  | .nothing | .lineEnd => none
  | .alef => joinAlef c
  | .kiratE => joinKiratE c
  | .kiratAi => if c.toNat = 0x16D63 then some (0, .nothing) else none
  | .picture => if c = '\u200D' then some (0, .join .picture) else none
  | .tint =>
    if takesTint c then some (0, .picture)
    else if c = '\u200D' then some (0, .join .picture)
    else none
  | .flagLetter => if isFlagLetter c then some (1, .flagLetters) else none
  | .flagLetters =>
    if isFlagLetter c then some (1, .flagLetters)
    else if c = '\u200D' then some (0, .join .picture)
    else none
  | .join .unevenLetters =>
    if c = '\u200D' then some (0, .join .picture) else joinRest c .unevenLetters
  | .join rest => joinRest c rest
  | s => joinLetters c s

/-! ### The walk -/

/-- The places that a character adds before what follows, no sign asking for a picture, and what
follows the character before it. -/
def stepPlainly (c : Char) (a : After) : Int × After :=
  if c = '\r' && a = .plainly .lineEnd then (0, .plainly .nothing)
  else if c = '\n' then (1, .plainly .lineEnd)
  else if c.toNat ≤ 0xA0 then (1, .plainly .nothing)
  else if c = '\uFE0F' then (0, a.asPicture)
  else if c = '\uFE0E' then (0, a.asPlain)
  else if a.look = some .plain && takesPlain c then (1, .plainly .nothing)
  else
    let (added, s) := (meet c a.withoutLook.shape).getD (placesOf c, .of c)
    (added, .plainly s)

/-- The places that a character adds before what follows, and what follows the character before
it. -/
def step (c : Char) (a : After) : Int × After :=
  if a.look = some .picture && takesPicture c then
    (if a.shape.awaitsPicture then 0 else 2, .plainly .picture)
  else if a.look = some .picture then stepPlainly c a.withoutLook
  else stepPlainly c a

/-- The places of a list of characters, and what follows a character before them. -/
def walk : List Char → Int × After :=
  List.foldr (fun c (sum, a) => let (added, a) := step c a; (sum + added, a))
    (0, .plainly .nothing)

/-- The places of a text. -/
def places (s : String) : Nat := (walk s.toList).1.toNat

end Lineage.Text
