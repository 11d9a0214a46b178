import Mathlib.Data.List.Basic

/-! ASCII characters with a meaning in the formats below. -/
namespace Characters

def newline : UInt8 := 10
def space : UInt8 := 32
def doubleQuote : UInt8 := 34
def numberSign : UInt8 := 35
def dollar : UInt8 := 36
def ampersand : UInt8 := 38
def singleQuote : UInt8 := 39
def comma : UInt8 := 44
def dot : UInt8 := 46
def slash : UInt8 := 47
def colon : UInt8 := 58
def less : UInt8 := 60
def greater : UInt8 := 62
def openBracket : UInt8 := 91
def backslash : UInt8 := 92
def closeBracket : UInt8 := 93
def backquote : UInt8 := 96
def openBrace : UInt8 := 123
def bar : UInt8 := 124
def closeBrace : UInt8 := 125

def isDigit (character : UInt8) : Bool := 48 ≤ character && character ≤ 57

end Characters
