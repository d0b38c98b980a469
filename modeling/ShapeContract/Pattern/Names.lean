/-!
# Names of characters

A regular expression may give a character by its name. The names are those of a character database
that comes with the language and grows with its releases, so what reads expressions takes them as
given: `CharacterNames` is all that it asks of such a database. `CharacterNames.common` lists the
names of the characters in wide use.
-/

set_option autoImplicit false

namespace ShapeContract

/-- A database of named characters. A name that stands for several characters, or for none, has no
character. -/
class CharacterNames where
  named? : String → Option Char

namespace CharacterNames

/-- Names of consecutive characters, with the code of the first. -/
def runs : List (Nat × List String) :=
  [(0x20, ["SPACE", "EXCLAMATION MARK", "QUOTATION MARK", "NUMBER SIGN", "DOLLAR SIGN",
      "PERCENT SIGN", "AMPERSAND", "APOSTROPHE", "LEFT PARENTHESIS", "RIGHT PARENTHESIS",
      "ASTERISK", "PLUS SIGN", "COMMA", "HYPHEN-MINUS", "FULL STOP", "SOLIDUS", "DIGIT ZERO",
      "DIGIT ONE", "DIGIT TWO", "DIGIT THREE", "DIGIT FOUR", "DIGIT FIVE", "DIGIT SIX",
      "DIGIT SEVEN", "DIGIT EIGHT", "DIGIT NINE", "COLON", "SEMICOLON", "LESS-THAN SIGN",
      "EQUALS SIGN", "GREATER-THAN SIGN", "QUESTION MARK", "COMMERCIAL AT",
      "LATIN CAPITAL LETTER A", "LATIN CAPITAL LETTER B", "LATIN CAPITAL LETTER C",
      "LATIN CAPITAL LETTER D", "LATIN CAPITAL LETTER E", "LATIN CAPITAL LETTER F",
      "LATIN CAPITAL LETTER G", "LATIN CAPITAL LETTER H", "LATIN CAPITAL LETTER I",
      "LATIN CAPITAL LETTER J", "LATIN CAPITAL LETTER K", "LATIN CAPITAL LETTER L",
      "LATIN CAPITAL LETTER M", "LATIN CAPITAL LETTER N", "LATIN CAPITAL LETTER O",
      "LATIN CAPITAL LETTER P", "LATIN CAPITAL LETTER Q", "LATIN CAPITAL LETTER R",
      "LATIN CAPITAL LETTER S", "LATIN CAPITAL LETTER T", "LATIN CAPITAL LETTER U",
      "LATIN CAPITAL LETTER V", "LATIN CAPITAL LETTER W", "LATIN CAPITAL LETTER X",
      "LATIN CAPITAL LETTER Y", "LATIN CAPITAL LETTER Z", "LEFT SQUARE BRACKET",
      "REVERSE SOLIDUS", "RIGHT SQUARE BRACKET", "CIRCUMFLEX ACCENT", "LOW LINE", "GRAVE ACCENT",
      "LATIN SMALL LETTER A", "LATIN SMALL LETTER B", "LATIN SMALL LETTER C",
      "LATIN SMALL LETTER D", "LATIN SMALL LETTER E", "LATIN SMALL LETTER F",
      "LATIN SMALL LETTER G", "LATIN SMALL LETTER H", "LATIN SMALL LETTER I",
      "LATIN SMALL LETTER J", "LATIN SMALL LETTER K", "LATIN SMALL LETTER L",
      "LATIN SMALL LETTER M", "LATIN SMALL LETTER N", "LATIN SMALL LETTER O",
      "LATIN SMALL LETTER P", "LATIN SMALL LETTER Q", "LATIN SMALL LETTER R",
      "LATIN SMALL LETTER S", "LATIN SMALL LETTER T", "LATIN SMALL LETTER U",
      "LATIN SMALL LETTER V", "LATIN SMALL LETTER W", "LATIN SMALL LETTER X",
      "LATIN SMALL LETTER Y", "LATIN SMALL LETTER Z", "LEFT CURLY BRACKET", "VERTICAL LINE",
      "RIGHT CURLY BRACKET", "TILDE"]),
   (0xa0, ["NO-BREAK SPACE", "INVERTED EXCLAMATION MARK", "CENT SIGN", "POUND SIGN",
      "CURRENCY SIGN", "YEN SIGN", "BROKEN BAR", "SECTION SIGN", "DIAERESIS", "COPYRIGHT SIGN",
      "FEMININE ORDINAL INDICATOR", "LEFT-POINTING DOUBLE ANGLE QUOTATION MARK", "NOT SIGN",
      "SOFT HYPHEN", "REGISTERED SIGN", "MACRON", "DEGREE SIGN", "PLUS-MINUS SIGN",
      "SUPERSCRIPT TWO", "SUPERSCRIPT THREE", "ACUTE ACCENT", "MICRO SIGN", "PILCROW SIGN",
      "MIDDLE DOT", "CEDILLA", "SUPERSCRIPT ONE", "MASCULINE ORDINAL INDICATOR",
      "RIGHT-POINTING DOUBLE ANGLE QUOTATION MARK", "VULGAR FRACTION ONE QUARTER",
      "VULGAR FRACTION ONE HALF", "VULGAR FRACTION THREE QUARTERS", "INVERTED QUESTION MARK",
      "LATIN CAPITAL LETTER A WITH GRAVE", "LATIN CAPITAL LETTER A WITH ACUTE",
      "LATIN CAPITAL LETTER A WITH CIRCUMFLEX", "LATIN CAPITAL LETTER A WITH TILDE",
      "LATIN CAPITAL LETTER A WITH DIAERESIS", "LATIN CAPITAL LETTER A WITH RING ABOVE",
      "LATIN CAPITAL LETTER AE", "LATIN CAPITAL LETTER C WITH CEDILLA",
      "LATIN CAPITAL LETTER E WITH GRAVE", "LATIN CAPITAL LETTER E WITH ACUTE",
      "LATIN CAPITAL LETTER E WITH CIRCUMFLEX", "LATIN CAPITAL LETTER E WITH DIAERESIS",
      "LATIN CAPITAL LETTER I WITH GRAVE", "LATIN CAPITAL LETTER I WITH ACUTE",
      "LATIN CAPITAL LETTER I WITH CIRCUMFLEX", "LATIN CAPITAL LETTER I WITH DIAERESIS",
      "LATIN CAPITAL LETTER ETH", "LATIN CAPITAL LETTER N WITH TILDE",
      "LATIN CAPITAL LETTER O WITH GRAVE", "LATIN CAPITAL LETTER O WITH ACUTE",
      "LATIN CAPITAL LETTER O WITH CIRCUMFLEX", "LATIN CAPITAL LETTER O WITH TILDE",
      "LATIN CAPITAL LETTER O WITH DIAERESIS", "MULTIPLICATION SIGN",
      "LATIN CAPITAL LETTER O WITH STROKE", "LATIN CAPITAL LETTER U WITH GRAVE",
      "LATIN CAPITAL LETTER U WITH ACUTE", "LATIN CAPITAL LETTER U WITH CIRCUMFLEX",
      "LATIN CAPITAL LETTER U WITH DIAERESIS", "LATIN CAPITAL LETTER Y WITH ACUTE",
      "LATIN CAPITAL LETTER THORN", "LATIN SMALL LETTER SHARP S",
      "LATIN SMALL LETTER A WITH GRAVE", "LATIN SMALL LETTER A WITH ACUTE",
      "LATIN SMALL LETTER A WITH CIRCUMFLEX", "LATIN SMALL LETTER A WITH TILDE",
      "LATIN SMALL LETTER A WITH DIAERESIS", "LATIN SMALL LETTER A WITH RING ABOVE",
      "LATIN SMALL LETTER AE", "LATIN SMALL LETTER C WITH CEDILLA",
      "LATIN SMALL LETTER E WITH GRAVE", "LATIN SMALL LETTER E WITH ACUTE",
      "LATIN SMALL LETTER E WITH CIRCUMFLEX", "LATIN SMALL LETTER E WITH DIAERESIS",
      "LATIN SMALL LETTER I WITH GRAVE", "LATIN SMALL LETTER I WITH ACUTE",
      "LATIN SMALL LETTER I WITH CIRCUMFLEX", "LATIN SMALL LETTER I WITH DIAERESIS",
      "LATIN SMALL LETTER ETH", "LATIN SMALL LETTER N WITH TILDE",
      "LATIN SMALL LETTER O WITH GRAVE", "LATIN SMALL LETTER O WITH ACUTE",
      "LATIN SMALL LETTER O WITH CIRCUMFLEX", "LATIN SMALL LETTER O WITH TILDE",
      "LATIN SMALL LETTER O WITH DIAERESIS", "DIVISION SIGN", "LATIN SMALL LETTER O WITH STROKE",
      "LATIN SMALL LETTER U WITH GRAVE", "LATIN SMALL LETTER U WITH ACUTE",
      "LATIN SMALL LETTER U WITH CIRCUMFLEX", "LATIN SMALL LETTER U WITH DIAERESIS",
      "LATIN SMALL LETTER Y WITH ACUTE", "LATIN SMALL LETTER THORN",
      "LATIN SMALL LETTER Y WITH DIAERESIS"]),
   (0x152, ["LATIN CAPITAL LIGATURE OE", "LATIN SMALL LIGATURE OE"]),
   (0x160, ["LATIN CAPITAL LETTER S WITH CARON", "LATIN SMALL LETTER S WITH CARON"]),
   (0x17d, ["LATIN CAPITAL LETTER Z WITH CARON", "LATIN SMALL LETTER Z WITH CARON"]),
   (0x391, ["GREEK CAPITAL LETTER ALPHA", "GREEK CAPITAL LETTER BETA",
      "GREEK CAPITAL LETTER GAMMA", "GREEK CAPITAL LETTER DELTA", "GREEK CAPITAL LETTER EPSILON",
      "GREEK CAPITAL LETTER ZETA", "GREEK CAPITAL LETTER ETA", "GREEK CAPITAL LETTER THETA",
      "GREEK CAPITAL LETTER IOTA", "GREEK CAPITAL LETTER KAPPA", "GREEK CAPITAL LETTER LAMDA",
      "GREEK CAPITAL LETTER MU", "GREEK CAPITAL LETTER NU", "GREEK CAPITAL LETTER XI",
      "GREEK CAPITAL LETTER OMICRON", "GREEK CAPITAL LETTER PI", "GREEK CAPITAL LETTER RHO"]),
   (0x3a3, ["GREEK CAPITAL LETTER SIGMA", "GREEK CAPITAL LETTER TAU",
      "GREEK CAPITAL LETTER UPSILON", "GREEK CAPITAL LETTER PHI", "GREEK CAPITAL LETTER CHI",
      "GREEK CAPITAL LETTER PSI", "GREEK CAPITAL LETTER OMEGA"]),
   (0x3b1, ["GREEK SMALL LETTER ALPHA", "GREEK SMALL LETTER BETA", "GREEK SMALL LETTER GAMMA",
      "GREEK SMALL LETTER DELTA", "GREEK SMALL LETTER EPSILON", "GREEK SMALL LETTER ZETA",
      "GREEK SMALL LETTER ETA", "GREEK SMALL LETTER THETA", "GREEK SMALL LETTER IOTA",
      "GREEK SMALL LETTER KAPPA", "GREEK SMALL LETTER LAMDA", "GREEK SMALL LETTER MU",
      "GREEK SMALL LETTER NU", "GREEK SMALL LETTER XI", "GREEK SMALL LETTER OMICRON",
      "GREEK SMALL LETTER PI", "GREEK SMALL LETTER RHO", "GREEK SMALL LETTER FINAL SIGMA",
      "GREEK SMALL LETTER SIGMA", "GREEK SMALL LETTER TAU", "GREEK SMALL LETTER UPSILON",
      "GREEK SMALL LETTER PHI", "GREEK SMALL LETTER CHI", "GREEK SMALL LETTER PSI",
      "GREEK SMALL LETTER OMEGA"]),
   (0x410, ["CYRILLIC CAPITAL LETTER A", "CYRILLIC CAPITAL LETTER BE",
      "CYRILLIC CAPITAL LETTER VE", "CYRILLIC CAPITAL LETTER GHE", "CYRILLIC CAPITAL LETTER DE",
      "CYRILLIC CAPITAL LETTER IE", "CYRILLIC CAPITAL LETTER ZHE", "CYRILLIC CAPITAL LETTER ZE",
      "CYRILLIC CAPITAL LETTER I", "CYRILLIC CAPITAL LETTER SHORT I",
      "CYRILLIC CAPITAL LETTER KA", "CYRILLIC CAPITAL LETTER EL", "CYRILLIC CAPITAL LETTER EM",
      "CYRILLIC CAPITAL LETTER EN", "CYRILLIC CAPITAL LETTER O", "CYRILLIC CAPITAL LETTER PE",
      "CYRILLIC CAPITAL LETTER ER", "CYRILLIC CAPITAL LETTER ES", "CYRILLIC CAPITAL LETTER TE",
      "CYRILLIC CAPITAL LETTER U", "CYRILLIC CAPITAL LETTER EF", "CYRILLIC CAPITAL LETTER HA",
      "CYRILLIC CAPITAL LETTER TSE", "CYRILLIC CAPITAL LETTER CHE", "CYRILLIC CAPITAL LETTER SHA",
      "CYRILLIC CAPITAL LETTER SHCHA", "CYRILLIC CAPITAL LETTER HARD SIGN",
      "CYRILLIC CAPITAL LETTER YERU", "CYRILLIC CAPITAL LETTER SOFT SIGN",
      "CYRILLIC CAPITAL LETTER E", "CYRILLIC CAPITAL LETTER YU", "CYRILLIC CAPITAL LETTER YA",
      "CYRILLIC SMALL LETTER A", "CYRILLIC SMALL LETTER BE", "CYRILLIC SMALL LETTER VE",
      "CYRILLIC SMALL LETTER GHE", "CYRILLIC SMALL LETTER DE", "CYRILLIC SMALL LETTER IE",
      "CYRILLIC SMALL LETTER ZHE", "CYRILLIC SMALL LETTER ZE", "CYRILLIC SMALL LETTER I",
      "CYRILLIC SMALL LETTER SHORT I", "CYRILLIC SMALL LETTER KA", "CYRILLIC SMALL LETTER EL",
      "CYRILLIC SMALL LETTER EM", "CYRILLIC SMALL LETTER EN", "CYRILLIC SMALL LETTER O",
      "CYRILLIC SMALL LETTER PE", "CYRILLIC SMALL LETTER ER", "CYRILLIC SMALL LETTER ES",
      "CYRILLIC SMALL LETTER TE", "CYRILLIC SMALL LETTER U", "CYRILLIC SMALL LETTER EF",
      "CYRILLIC SMALL LETTER HA", "CYRILLIC SMALL LETTER TSE", "CYRILLIC SMALL LETTER CHE",
      "CYRILLIC SMALL LETTER SHA", "CYRILLIC SMALL LETTER SHCHA",
      "CYRILLIC SMALL LETTER HARD SIGN", "CYRILLIC SMALL LETTER YERU",
      "CYRILLIC SMALL LETTER SOFT SIGN", "CYRILLIC SMALL LETTER E", "CYRILLIC SMALL LETTER YU",
      "CYRILLIC SMALL LETTER YA"]),
   (0x2000, ["EN QUAD", "EM QUAD", "EN SPACE", "EM SPACE", "THREE-PER-EM SPACE",
      "FOUR-PER-EM SPACE", "SIX-PER-EM SPACE", "FIGURE SPACE", "PUNCTUATION SPACE", "THIN SPACE",
      "HAIR SPACE", "ZERO WIDTH SPACE", "ZERO WIDTH NON-JOINER", "ZERO WIDTH JOINER",
      "LEFT-TO-RIGHT MARK", "RIGHT-TO-LEFT MARK"]),
   (0x2010, ["HYPHEN", "NON-BREAKING HYPHEN", "FIGURE DASH", "EN DASH", "EM DASH",
      "HORIZONTAL BAR", "DOUBLE VERTICAL LINE", "DOUBLE LOW LINE", "LEFT SINGLE QUOTATION MARK",
      "RIGHT SINGLE QUOTATION MARK", "SINGLE LOW-9 QUOTATION MARK",
      "SINGLE HIGH-REVERSED-9 QUOTATION MARK", "LEFT DOUBLE QUOTATION MARK",
      "RIGHT DOUBLE QUOTATION MARK", "DOUBLE LOW-9 QUOTATION MARK",
      "DOUBLE HIGH-REVERSED-9 QUOTATION MARK", "DAGGER", "DOUBLE DAGGER", "BULLET",
      "TRIANGULAR BULLET", "ONE DOT LEADER", "TWO DOT LEADER", "HORIZONTAL ELLIPSIS",
      "HYPHENATION POINT", "LINE SEPARATOR", "PARAGRAPH SEPARATOR", "LEFT-TO-RIGHT EMBEDDING",
      "RIGHT-TO-LEFT EMBEDDING", "POP DIRECTIONAL FORMATTING", "LEFT-TO-RIGHT OVERRIDE",
      "RIGHT-TO-LEFT OVERRIDE", "NARROW NO-BREAK SPACE", "PER MILLE SIGN",
      "PER TEN THOUSAND SIGN", "PRIME", "DOUBLE PRIME", "TRIPLE PRIME", "REVERSED PRIME",
      "REVERSED DOUBLE PRIME", "REVERSED TRIPLE PRIME", "CARET",
      "SINGLE LEFT-POINTING ANGLE QUOTATION MARK", "SINGLE RIGHT-POINTING ANGLE QUOTATION MARK"]),
   (0x20a8, ["RUPEE SIGN", "WON SIGN", "NEW SHEQEL SIGN", "DONG SIGN", "EURO SIGN"]),
   (0x2190, ["LEFTWARDS ARROW", "UPWARDS ARROW", "RIGHTWARDS ARROW", "DOWNWARDS ARROW",
      "LEFT RIGHT ARROW", "UP DOWN ARROW", "NORTH WEST ARROW", "NORTH EAST ARROW",
      "SOUTH EAST ARROW", "SOUTH WEST ARROW"]),
   (0x2200, ["FOR ALL", "COMPLEMENT", "PARTIAL DIFFERENTIAL", "THERE EXISTS",
      "THERE DOES NOT EXIST", "EMPTY SET", "INCREMENT", "NABLA", "ELEMENT OF",
      "NOT AN ELEMENT OF", "SMALL ELEMENT OF", "CONTAINS AS MEMBER"]),
   (0x2212, ["MINUS SIGN"]),
   (0x2215, ["DIVISION SLASH", "SET MINUS", "ASTERISK OPERATOR", "RING OPERATOR",
      "BULLET OPERATOR", "SQUARE ROOT", "CUBE ROOT", "FOURTH ROOT", "PROPORTIONAL TO",
      "INFINITY"]),
   (0x2227, ["LOGICAL AND", "LOGICAL OR", "INTERSECTION", "UNION", "INTEGRAL"]),
   (0x2248, ["ALMOST EQUAL TO"]),
   (0x2260, ["NOT EQUAL TO", "IDENTICAL TO", "NOT IDENTICAL TO", "STRICTLY EQUIVALENT TO",
      "LESS-THAN OR EQUAL TO", "GREATER-THAN OR EQUAL TO"]),
   (0x2600, ["BLACK SUN WITH RAYS", "CLOUD", "UMBRELLA", "SNOWMAN", "COMET", "BLACK STAR",
      "WHITE STAR"]),
   (0x2660, ["BLACK SPADE SUIT", "WHITE HEART SUIT", "WHITE DIAMOND SUIT", "BLACK CLUB SUIT",
      "WHITE SPADE SUIT", "BLACK HEART SUIT", "BLACK DIAMOND SUIT", "WHITE CLUB SUIT"]),
   (0x2713, ["CHECK MARK", "HEAVY CHECK MARK", "MULTIPLICATION X", "HEAVY MULTIPLICATION X",
      "BALLOT X", "HEAVY BALLOT X"]),
   (0xfeff, ["ZERO WIDTH NO-BREAK SPACE"]),
   (0x1f600, ["GRINNING FACE", "GRINNING FACE WITH SMILING EYES", "FACE WITH TEARS OF JOY",
      "SMILING FACE WITH OPEN MOUTH", "SMILING FACE WITH OPEN MOUTH AND SMILING EYES",
      "SMILING FACE WITH OPEN MOUTH AND COLD SWEAT",
      "SMILING FACE WITH OPEN MOUTH AND TIGHTLY-CLOSED EYES", "SMILING FACE WITH HALO",
      "SMILING FACE WITH HORNS", "WINKING FACE", "SMILING FACE WITH SMILING EYES",
      "FACE SAVOURING DELICIOUS FOOD", "RELIEVED FACE", "SMILING FACE WITH HEART-SHAPED EYES",
      "SMILING FACE WITH SUNGLASSES", "SMIRKING FACE"])]

/-- Further names of characters, most of which have no other. -/
def aliases : List (String × Nat) :=
  [("NULL", 0x0), ("ALERT", 0x7), ("BACKSPACE", 0x8), ("CHARACTER TABULATION", 0x9),
   ("HORIZONTAL TABULATION", 0x9), ("TAB", 0x9), ("LINE FEED", 0xa), ("NEW LINE", 0xa),
   ("LF", 0xa), ("LINE TABULATION", 0xb), ("VERTICAL TABULATION", 0xb), ("FORM FEED", 0xc),
   ("CARRIAGE RETURN", 0xd), ("CR", 0xd), ("ESCAPE", 0x1b), ("ESC", 0x1b), ("DELETE", 0x7f),
   ("NEXT LINE", 0x85), ("NBSP", 0xa0), ("SHY", 0xad), ("ZWSP", 0x200b), ("ZWNJ", 0x200c),
   ("ZWJ", 0x200d), ("BYTE ORDER MARK", 0xfeff), ("BOM", 0xfeff)]

def inRun? (name : String) (run : Nat × List String) : Option Nat :=
  (run.2.findIdx? (· = name)).map (run.1 + ·)

/-- The names of the characters in wide use, in any letter case. -/
@[reducible]
def common : CharacterNames where
  named? s :=
    let name := s.toUpper
    ((aliases.lookup name).or (runs.findSome? (inRun? name))).map Char.ofNat

end CharacterNames

end ShapeContract
