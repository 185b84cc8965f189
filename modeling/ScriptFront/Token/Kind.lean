/-!
# Kinds of token

A token is the end of the source, a number, a string or an identifier, or it is one of a fixed
set of marks and reserved words. Marks and words have one spelling each, so their kind says all
there is to say about them; the other kinds need a value beside it.

Kinds are ordered as they are listed here: the four open kinds, then the marks, then the
reserved words.
-/

namespace ScriptFront

/-- The punctuation marks and operators. -/
inductive Punct where
  | openBracket | closeBracket | openCurly | closeCurly | openParen | closeParen
  | assignment | equals | not | notEquals
  | less | lessEquals | greater | greaterEquals
  | or | and
  | dot | dotDot | semicolon | colon | question | comma
  | plusPlus | minusMinus | plusEquals | minusEquals
  | plus | dash | slash | star | percent
deriving DecidableEq, Repr

namespace Punct

/-- All marks, in order. -/
def all : List Punct :=
  [openBracket, closeBracket, openCurly, closeCurly, openParen, closeParen,
    assignment, equals, not, notEquals, less, lessEquals, greater, greaterEquals, or, and,
    dot, dotDot, semicolon, colon, question, comma,
    plusPlus, minusMinus, plusEquals, minusEquals, plus, dash, slash, star, percent]

/-- The name of a mark in listings. -/
def name : Punct → String
  | openBracket => "open_bracket"
  | closeBracket => "close_bracket"
  | openCurly => "open_curly"
  | closeCurly => "close_curly"
  | openParen => "open_paren"
  | closeParen => "close_paren"
  | assignment => "assignment"
  | equals => "equals"
  | not => "not"
  | notEquals => "not_equals"
  | less => "less"
  | lessEquals => "less_equals"
  | greater => "greater"
  | greaterEquals => "greater_equals"
  | or => "or"
  | and => "and"
  | dot => "dot"
  | dotDot => "dot_dot"
  | semicolon => "semi_colon"
  | colon => "colon"
  | question => "question"
  | comma => "comma"
  | plusPlus => "plus_plus"
  | minusMinus => "minus_minus"
  | plusEquals => "plus_equals"
  | minusEquals => "minus_equals"
  | plus => "plus"
  | dash => "dash"
  | slash => "slash"
  | star => "star"
  | percent => "percent"

/-- How a mark is written in a source. The table of rules has its own texts for the marks, which are
the same (`Punct.entry_eq`). -/
def spelling : Punct → String
  | openBracket => "["
  | closeBracket => "]"
  | openCurly => "\x7b"
  | closeCurly => "\x7d"
  | openParen => "("
  | closeParen => ")"
  | assignment => "="
  | equals => "=="
  | not => "!"
  | notEquals => "!="
  | less => "<"
  | lessEquals => "<="
  | greater => ">"
  | greaterEquals => ">="
  | or => "||"
  | and => "&&"
  | dot => "."
  | dotDot => ".."
  | semicolon => ";"
  | colon => ":"
  | question => "?"
  | comma => ","
  | plusPlus => "++"
  | minusMinus => "--"
  | plusEquals => "+="
  | minusEquals => "-="
  | plus => "+"
  | dash => "-"
  | slash => "/"
  | star => "*"
  | percent => "%"

/-- Whether a mark stands between two operands: arithmetic, comparison, logic and assignment. -/
def isBinaryOperator : Punct → Bool
  | plus | dash | star | slash | percent
  | equals | notEquals | less | lessEquals | greater | greaterEquals
  | and | or
  | assignment | plusEquals | minusEquals => true
  | _ => false

/-- The list of marks is complete. -/
theorem mem_all (p : Punct) : p ∈ all := by cases p <;> decide

/-- No two marks are written alike. -/
theorem spelling_inj {p q : Punct} (h : p.spelling = q.spelling) : p = q := by
  have hall : ∀ a ∈ all, ∀ b ∈ all, a.spelling = b.spelling → a = b := by decide
  exact hall p (mem_all p) q (mem_all q) h

end Punct

/-- The reserved words, which are never identifiers. -/
inductive Keyword where
  | letWord | constWord | classWord | newWord | importWord | fromWord | fnWord
  | ifWord | elseWord | foreachWord | whileWord | forWord | exportWord | typeofWord | inWord
deriving DecidableEq, Repr

namespace Keyword

/-- All reserved words, in order. -/
def all : List Keyword :=
  [letWord, constWord, classWord, newWord, importWord, fromWord, fnWord,
    ifWord, elseWord, foreachWord, whileWord, forWord, exportWord, typeofWord, inWord]

/-- The name of a reserved word in listings. -/
def name : Keyword → String
  | letWord => "let"
  | constWord => "const"
  | classWord => "class"
  | newWord => "new"
  | importWord => "import"
  | fromWord => "from"
  | fnWord => "fn"
  | ifWord => "if"
  | elseWord => "else"
  | foreachWord => "foreach"
  | whileWord => "while"
  | forWord => "for"
  | exportWord => "export"
  | typeofWord => "typeof"
  | inWord => "in"

/-- How a reserved word is written in a source, which is as it is named. -/
def spelling (word : Keyword) : String := word.name

/-- The texts that are reserved, each with its word. This is a list of its own beside the names, and
agrees with them (`eq_spelling_of_mem_reserved`). -/
def reserved : List (String × Keyword) :=
  [("let", letWord), ("const", constWord), ("class", classWord), ("new", newWord),
    ("import", importWord), ("from", fromWord), ("fn", fnWord), ("if", ifWord), ("else", elseWord),
    ("foreach", foreachWord), ("while", whileWord), ("for", forWord), ("export", exportWord),
    ("typeof", typeofWord), ("in", inWord)]

/-- The reserved word that is written so, if there is one. -/
def ofSpelling? (text : String) : Option Keyword := reserved.lookup text

/-- The list of reserved words is complete. -/
theorem mem_all (word : Keyword) : word ∈ all := by cases word <;> decide

/-- The texts that are reserved are the spellings of the words that they stand for. -/
theorem eq_spelling_of_mem_reserved {entry : String × Keyword} (h : entry ∈ reserved) :
    entry.1 = entry.2.spelling := by
  have hall : ∀ e ∈ reserved, e.1 = e.2.spelling := by decide
  exact hall entry h

/-- **Each reserved word is found by its spelling, and by nothing else.** -/
theorem ofSpelling?_eq_some_iff {text : String} {word : Keyword} :
    ofSpelling? text = some word ↔ text = word.spelling := by
  constructor
  · intro h
    obtain ⟨before, after, hreserved, -⟩ := List.lookup_eq_some_iff.mp h
    have hmem : (text, word) ∈ reserved := by
      rw [hreserved]
      exact List.mem_append_right before List.mem_cons_self
    exact eq_spelling_of_mem_reserved hmem
  · rintro rfl
    cases word <;> decide

/-- No text is reserved twice, so the list may stand in any order. -/
example : (reserved.map Prod.fst).Nodup := by decide

end Keyword

/-- What sort of thing a token is. -/
inductive Kind where
  | eof
  | number
  | string
  | identifier
  | punct (mark : Punct)
  | keyword (word : Keyword)
deriving DecidableEq, Repr

namespace Kind

/-- All kinds, in order. -/
def all : List Kind :=
  [eof, number, string, identifier] ++ Punct.all.map punct ++ Keyword.all.map keyword

/-- The name of a kind in listings. -/
def name : Kind → String
  | eof => "eof"
  | number => "number"
  | string => "string"
  | identifier => "identifier"
  | punct mark => mark.name
  | keyword word => word.name

/-- The kind of that name, if there is one. -/
def ofName? (text : String) : Option Kind := all.find? fun kind => kind.name == text

/-- The one way in which tokens of a kind are written, if there is only one. -/
def spelling? : Kind → Option String
  | punct mark => some mark.spelling
  | keyword word => some word.spelling
  | _ => none

/-- Whether tokens of a kind need a value to tell them apart. -/
def hasPayload : Kind → Bool
  | number | string | identifier => true
  | _ => false

/-- Whether a kind is a reserved word. -/
def isKeyword : Kind → Bool
  | keyword _ => true
  | _ => false

/-- Whether tokens of a kind stand between two operands. -/
def isBinaryOperator : Kind → Bool
  | punct mark => mark.isBinaryOperator
  | _ => false

/-- The place of a kind in the order. -/
def rank (kind : Kind) : Nat := all.idxOf kind

instance : Ord Kind where
  compare a b := compare a.rank b.rank

/-- Kinds from first to last. -/
def sort (kinds : List Kind) : List Kind := kinds.mergeSort fun a b => a.rank ≤ b.rank

/-- The list of kinds is complete. -/
theorem mem_all (kind : Kind) : kind ∈ all := by
  cases kind with
  | punct mark => simp [all, Punct.mem_all mark]
  | keyword word => simp [all, Keyword.mem_all word]
  | _ => simp [all]

/-- Each kind is found by its name. -/
theorem ofName?_name (kind : Kind) : ofName? kind.name = some kind := by
  have hall : ∀ k ∈ all, ofName? k.name = some k := by decide
  exact hall kind (mem_all kind)

end Kind

end ScriptFront
