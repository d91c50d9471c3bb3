/-!
# Lines of text

A text is cut into lines at line feeds.  A carriage return right before a line feed belongs to the
line's end, and an empty rest after the last line feed is no line.
-/

namespace IndicatorCompiler.Text

/-- The pieces of a text between line feeds; one more than there are line feeds. -/
def splitLines : List Char → List (List Char)
  | [] => [[]]
  | c :: rest =>
    if c = '\n' then [] :: splitLines rest
    else match splitLines rest with
      | [] => [[c]]
      | line :: more => (c :: line) :: more

/-- A line without the carriage return that ends it. -/
def withoutReturn (line : List Char) : List Char :=
  if line.getLast? = some '\r' then line.dropLast else line

/-- The lines of a text, without their ends. -/
def lines (text : List Char) : List (List Char) :=
  match (splitLines text).reverse with
  | [] => []
  | last :: finished =>
    let complete := finished.reverse.map withoutReturn
    if last.isEmpty then complete else complete ++ [last]

/-- `texts` with `separator` between neighbours. -/
def joinWith (separator : String) : List String → String
  | [] => ""
  | [text] => text
  | text :: more => text ++ separator ++ joinWith separator more

/-- `n` copies of a character. -/
def repeated (c : Char) (n : Nat) : String := String.ofList (List.replicate n c)

/-- `text` moved to the right edge of a field of `width` characters. -/
def padLeft (width : Nat) (text : String) : String := repeated ' ' (width - text.length) ++ text

/-- `text` at the left edge of a field of `width` characters. -/
def padRight (width : Nat) (text : String) : String := text ++ repeated ' ' (width - text.length)

/-- Four blanks for every level. -/
def indentation (level : Nat) : String := repeated ' ' (4 * level)

/-- `text` begins with `c`. -/
def beginsWith (c : Char) (text : String) : Bool := text.startsWith c

theorem beginsWith_eq (c : Char) (text : String) :
    beginsWith c text = (text.toList.head? == some c) :=
  String.startsWith_char_eq_head?

end IndicatorCompiler.Text
