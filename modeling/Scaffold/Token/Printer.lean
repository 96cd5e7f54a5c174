import Scaffold.Text.Split
import Scaffold.Token.Basic
import Scaffold.Token.Word

/-!
# Writing tokens

The grammars of words and numerals, and the text of a list of token kinds with
single spaces between them.
-/
namespace Scaffold

namespace Word

def isSegment : List Char → Bool
  | [] => false
  | c :: cs => starts c && cs.all continues

/-- A word is one or more segments with single dots between them. -/
def isWord (cs : List Char) : Bool := (Text.splitOn '.' cs).all isSegment

end Word

namespace Numeral

/-- A numeral is one or more digits, and then possibly a dot and any number of digits. -/
def isNumeral (cs : List Char) : Bool :=
  cs.takeWhile Char.isDigit ≠ [] && match cs.dropWhile Char.isDigit with
    | [] => true
    | c :: fraction => c = '.' && fraction.all Char.isDigit

end Numeral

namespace TokenKind

/-- The kinds that a text can hold: words that are no keywords, numerals, and strings
without a quote inside. -/
def isPrintable : TokenKind → Bool
  | ident text => Word.isWord text.toList && (Keyword.ofSpelling? text).isNone
  | number text => Numeral.isNumeral text.toList
  | string text => !text.toList.contains '\"'
  | eof => false
  | _ => true

/-- The lexeme, between quotes for a string. -/
def write : TokenKind → List Char
  | string text => '\"' :: text.toList ++ ['\"']
  | kind => (kind.lexeme?.getD "").toList

def writeAll (kinds : List TokenKind) : String :=
  String.ofList ([' '].intercalate (kinds.map write))

end TokenKind

end Scaffold
