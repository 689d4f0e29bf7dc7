import Highlighter.Text

/-!
The samples that come with the program.
-/
namespace Highlighter.Sample

/-- The bundled sample document, line by line. -/
def bundledLines : List String := [
  "\x7b",
  "    \"example\": [",
  "        \"// Lavendeux evaluates any expression it finds in the clipboard\",",
  "        \"x = 5\",",
  "        \"f(x) = 3x**2 + 2x + 1\",",
  "        \"f(x) @hex\"",
  "    ],",
  "    \"samples\": [",
  "        \x7b",
  "            \"name\": \"Basic syntax\",",
  "            \"format\": \"lavendeux\",",
  "            \"description\": [",
  "                \"Expressions are evaluated line by line.\",",
  "                \"Assignments make values available to later lines.\"",
  "            ],",
  "            \"code\": [",
  "                \"FLAG_FEATURE1 = 0b10000000\",",
  "                \"FLAG_FEATURE2 = 0b01000000\",",
  "                \"masked(input, flag) = input & flag\",",
  "                \"has_flag(input, flag) = masked(input, flag) == flag\",",
  "                \"has_flag(FLAG_FEATURE1 | FLAG_FEATURE2, FLAG_FEATURE1)\"",
  "            ]",
  "        \x7d,",
  "        \x7b",
  "            \"name\": \"Operators\",",
  "            \"format\": \"lavendeux\",",
  "            \"description\": [",
  "                \"Arithmetic, bitwise and boolean operators are supported.\",",
  "                \"Arrays apply operators element by element.\"",
  "            ],",
  "            \"code\": [",
  "                \"sqrt(16) ** 2 == 16     // Exponentiation\",",
  "                \"2 << 1 == 4             // Bitwise shift\",",
  "                \"0x2 ^ 0x3 == 0x1        // Bitwise XOR\",",
  "                \"[1, 2] + 2 == [3, 4]    // Array OPs\"",
  "            ]",
  "        \x7d,",
  "        \x7b",
  "            \"name\": \"Types\",",
  "            \"format\": \"lavendeux\",",
  "            \"description\": [",
  "                \"Numbers can carry currency symbols, thousands separators\",",
  "                \"and scientific notation.\"",
  "            ],",
  "            \"code\": [",
  "                \"$1,000 + ¥1,000.00 == 2,000     // Currencies\",",
  "                \"5.6e+7 - .6E7 + .2e-3           // Sci notation\",",
  "                \"concat('foo', \\\"bar\\\")            // Strings\",",
  "                \"/* Objects and arrays */\",",
  "                \"\x7b'key': 1, 2: 'value'\x7d\"",
  "            ]",
  "        \x7d,",
  "        \x7b",
  "            \"name\": \"Decorators\",",
  "            \"format\": \"lavendeux\",",
  "            \"description\": [",
  "                \"A decorator at the end of a line formats its result.\"",
  "            ],",
  "            \"code\": [",
  "                \"255 @hex\",",
  "                \"1588800000 @utc\",",
  "                \"1000 * 1.25 @usd\"",
  "            ]",
  "        \x7d,",
  "        \x7b",
  "            \"name\": \"Extensions\",",
  "            \"format\": \"javascript\",",
  "            \"description\": [",
  "                \"Extensions are written in JavaScript.\",",
  "                \"Each one exports its functions and decorators.\"",
  "            ],",
  "            \"code\": [",
  "                \"/* Adds a strlen function */\",",
  "                \"function extension() \x7b\",",
  "                \"    return \x7b\",",
  "                \"        name: 'strlen',\",",
  "                \"        functions: \x7b 'strlen': 'strlen' \x7d\",",
  "                \"    \x7d;\",",
  "                \"\x7d\",",
  "                \"\",",
  "                \"function strlen(args) \x7b\",",
  "                \"    return args[0].String.length; // length of the first argument\",",
  "                \"\x7d\"",
  "            ]",
  "        \x7d",
  "    ]",
  "\x7d"]

/-- The bundled sample document. -/
def bundled : Text := bundledLines.flatMap fun line => line.toList ++ ['\n']

end Highlighter.Sample
