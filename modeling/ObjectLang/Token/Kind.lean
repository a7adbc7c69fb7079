set_option autoImplicit false

/-!
# Kinds of tokens

The lexical classes of the language, how messages name them, and the two tables of fixed spellings:
words and symbols.
-/

namespace ObjectLang

inductive TokenKind
  | integer | rational | boolean | string | noneWord
  | equals | plus | minus | times | divide
  | less | lessEqual | greater | greaterEqual | same | different
  | andWord | orWord | notWord
  | parenOpen | parenClose | braceOpen | braceClose | bracketOpen | bracketClose
  | dot | colon | comma | semicolon
  | asWord | letWord | marker | whileWord | forWord | ifWord | elseWord | fnWord | typeWord
  | retWord | arrow | backArrow | doubleArrow | ampersand | namespaceMark | useWord
  | identifier
  /-- Blanks, line feeds and comments; no token has this kind. -/
  | whitespace
  /-- Closes the tokens of a file; no text has this kind. -/
  | endOfFile
  deriving DecidableEq, Repr, Inhabited

namespace TokenKind

def describe : TokenKind → String
  | integer => "INTEGER"
  | rational => "RATIONAL"
  | boolean => "BOOLEAN"
  | string => "STRING"
  | noneWord => "None"
  | equals => "'='"
  | plus => "'+'"
  | minus => "'-'"
  | times => "'*'"
  | divide => "'/'"
  | less => "'<'"
  | lessEqual => "'<='"
  | greater => "'>'"
  | greaterEqual => "'>='"
  | same => "'=='"
  | different => "'!='"
  | andWord => "'and'"
  | orWord => "'or'"
  | notWord => "'not'"
  | parenOpen => "'('"
  | parenClose => "')'"
  | braceOpen => "'\x7b'"
  | braceClose => "'\x7d'"
  | bracketOpen => "'['"
  | bracketClose => "']'"
  | dot => "'.'"
  | colon => "':'"
  | comma => "','"
  | semicolon => "';'"
  | asWord => "'as'"
  | letWord => "'let'"
  | marker => "ANNOTATION"
  | whileWord => "'while'"
  | forWord => "'for'"
  | ifWord => "'if'"
  | elseWord => "'else'"
  | fnWord => "'fn'"
  | typeWord => "'type'"
  | retWord => "'ret'"
  | arrow => "'->'"
  | backArrow => "'<-'"
  | doubleArrow => "'=>'"
  | ampersand => "'&'"
  | namespaceMark => "'::'"
  | useWord => "'use'"
  | identifier => "IDENTIFIER"
  | whitespace => "whitespace"
  | endOfFile => "END_OF_FILE"

def all : List TokenKind :=
  [integer, rational, boolean, string, noneWord, equals, plus, minus, times, divide, less,
    lessEqual, greater, greaterEqual, same, different, andWord, orWord, notWord, parenOpen,
    parenClose, braceOpen, braceClose, bracketOpen, bracketClose, dot, colon, comma, semicolon,
    asWord, letWord, marker, whileWord, forWord, ifWord, elseWord, fnWord, typeWord, retWord,
    arrow, backArrow, doubleArrow, ampersand, namespaceMark, useWord, identifier, whitespace,
    endOfFile]

theorem mem_all (kind : TokenKind) : kind ∈ all := by
  cases kind <;> decide

def named? (name : String) : Option TokenKind :=
  all.find? fun kind => kind.describe == name

def isLiteral : TokenKind → Bool
  | integer | rational | boolean | string => true
  | _ => false

def isBinaryOperator : TokenKind → Bool
  | plus | minus | times | divide | same | different | less | lessEqual | greater | greaterEqual
  | andWord | orWord => true
  | _ => false

def startsStatement : TokenKind → Bool
  | retWord | letWord | identifier | ifWord | whileWord | forWord | braceOpen => true
  | _ => false

def startsDeclaration : TokenKind → Bool
  | fnWord | typeWord | useWord | marker => true
  | _ => false

def hasVariableText : TokenKind → Bool
  | identifier | integer | rational | boolean | string | marker => true
  | _ => false

def words : List (String × TokenKind) :=
  [("True", boolean), ("False", boolean), ("None", noneWord), ("and", andWord), ("or", orWord),
    ("not", notWord), ("as", asWord), ("let", letWord), ("while", whileWord), ("for", forWord),
    ("if", ifWord), ("else", elseWord), ("fn", fnWord), ("type", typeWord), ("ret", retWord),
    ("return", retWord), ("use", useWord)]

def ofWord (word : String) : TokenKind := (words.lookup word).getD identifier

def pairs : List ((Char × Char) × TokenKind) :=
  [(('<', '='), lessEqual), (('>', '='), greaterEqual), (('=', '='), same),
    (('!', '='), different), (('-', '>'), arrow), (('<', '-'), backArrow),
    (('=', '>'), doubleArrow), ((':', ':'), namespaceMark)]

def symbols : List (Char × TokenKind) :=
  [('=', equals), ('+', plus), ('-', minus), ('*', times), ('/', divide), ('<', less),
    ('>', greater), ('(', parenOpen), (')', parenClose), ('{', braceOpen), ('}', braceClose),
    ('[', bracketOpen), (']', bracketClose), ('.', dot), (':', colon), (',', comma),
    (';', semicolon), ('&', ampersand)]

end TokenKind
end ObjectLang
